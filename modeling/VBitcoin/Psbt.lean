import VBitcoin.Regtest
import VBitcoin.SortedMap

/-!
**Partially signed transactions** (`psbt.h`, `psbt.cpp`) — the records of a PSBT and
`CombinePSBTs`.  Merging fills what the receiver does not have, but the order matters: a
witness output clears the previous transaction of the receiver, while a previous transaction
does not keep a witness output out; and the sighash type is not merged.
-/

namespace VBitcoin

open List

/-! ### Records -/

abbrev CPubKey := Bytes

abbrev CKeyID := Bytes

structure KeyOriginInfo where
  fingerprint : Bytes
  path : List UInt32
  deriving DecidableEq, Repr

abbrev SigPair := CPubKey × Bytes

/-- A `CTxOut` with the value `-1` is null: such a `witness_utxo` is `none`. -/
@[ext] structure PSBTInput where
  nonWitnessUtxo : Option CTransaction := none
  witnessUtxo : Option CTxOut := none
  redeemScript : CScript := []
  witnessScript : CScript := []
  finalScriptSig : CScript := []
  finalScriptWitness : List Bytes := []
  hdKeypaths : SortedMap CPubKey KeyOriginInfo := .empty
  partialSigs : SortedMap CKeyID SigPair := .empty
  unknown : SortedMap Bytes Bytes := .empty
  sighashType : Int := 0
  deriving DecidableEq

@[ext] structure PSBTOutput where
  redeemScript : CScript := []
  witnessScript : CScript := []
  hdKeypaths : SortedMap CPubKey KeyOriginInfo := .empty
  unknown : SortedMap Bytes Bytes := .empty
  deriving DecidableEq

/-- `PartiallySignedTransaction`, with the unsigned transaction it is about. -/
@[ext] structure PartiallySignedTransaction where
  tx : CTransaction
  inputs : List PSBTInput
  outputs : List PSBTOutput
  unknown : SortedMap Bytes Bytes := .empty
  inputsSize : inputs.length = tx.vin.length
  outputsSize : outputs.length = tx.vout.length
  deriving DecidableEq

/-! ### Merging -/

/-- `if (field.empty() && !other.empty()) field = other;` -/
def fillEmpty {α : Type} (field other : List α) : List α :=
  if field.isEmpty && !other.isEmpty then other else field

def PSBTInput.merge (self input : PSBTInput) : PSBTInput where
  nonWitnessUtxo :=
    -- a previous transaction is cleared when a witness output is set
    if self.witnessUtxo.isNone && input.witnessUtxo.isSome then none
    else self.nonWitnessUtxo.or input.nonWitnessUtxo
  witnessUtxo := self.witnessUtxo.or input.witnessUtxo
  partialSigs := self.partialSigs.insertAll input.partialSigs
  hdKeypaths := self.hdKeypaths.insertAll input.hdKeypaths
  unknown := self.unknown.insertAll input.unknown
  redeemScript := fillEmpty self.redeemScript input.redeemScript
  witnessScript := fillEmpty self.witnessScript input.witnessScript
  finalScriptSig := fillEmpty self.finalScriptSig input.finalScriptSig
  finalScriptWitness := fillEmpty self.finalScriptWitness input.finalScriptWitness
  sighashType := self.sighashType

def PSBTInput.isSane (input : PSBTInput) : Bool :=
  !(input.witnessUtxo.isSome && input.nonWitnessUtxo.isSome) &&
    !(!input.witnessScript.isEmpty && input.witnessUtxo.isNone) &&
    !(!input.finalScriptWitness.isEmpty && input.witnessUtxo.isNone)

def PSBTOutput.merge (self output : PSBTOutput) : PSBTOutput where
  hdKeypaths := self.hdKeypaths.insertAll output.hdKeypaths
  unknown := self.unknown.insertAll output.unknown
  redeemScript := fillEmpty self.redeemScript output.redeemScript
  witnessScript := fillEmpty self.witnessScript output.witnessScript

def mergeEach {α : Type} (merge : α → α → α) : List α → List α → List α
  | [], _ => []
  | x :: xs, [] => x :: xs
  | x :: xs, y :: ys => merge x y :: mergeEach merge xs ys

@[simp] theorem mergeEach_length {α : Type} (merge : α → α → α) : ∀ xs ys : List α,
    (mergeEach merge xs ys).length = xs.length
  | [], _ => rfl
  | _ :: _, [] => rfl
  | _ :: xs, _ :: ys => by
    rw [mergeEach, length_cons, length_cons, mergeEach_length merge xs ys]

/-- What the three loops and insertions of `Merge` leave in the receiver. -/
def PartiallySignedTransaction.mergeRecords (self psbt : PartiallySignedTransaction) :
    PartiallySignedTransaction where
  tx := self.tx
  inputs := mergeEach PSBTInput.merge self.inputs psbt.inputs
  outputs := mergeEach PSBTOutput.merge self.outputs psbt.outputs
  unknown := self.unknown.insertAll psbt.unknown
  inputsSize := (mergeEach_length _ _ _).trans self.inputsSize
  outputsSize := (mergeEach_length _ _ _).trans self.outputsSize

/-- `PartiallySignedTransaction::Merge`; `none` when it returns false. -/
def PartiallySignedTransaction.merge (E : NodeEnv) (self psbt : PartiallySignedTransaction) :
    Run (Option PartiallySignedTransaction) :=
  if E.txid self.tx ≠ E.txid psbt.tx then pure none
  else do
    require (self.inputs.length ≤ psbt.inputs.length) (.undefined "psbt.inputs[i]")
    require (self.outputs.length ≤ psbt.outputs.length) (.undefined "psbt.outputs[i]")
    pure (some (self.mergeRecords psbt))

def PartiallySignedTransaction.isSane (psbt : PartiallySignedTransaction) : Bool :=
  psbt.inputs.all PSBTInput.isSane

inductive TransactionError where
  | PSBT_MISMATCH
  | INVALID_PSBT
  deriving DecidableEq, Repr

def mergeLoop (E : NodeEnv) : PartiallySignedTransaction → List PartiallySignedTransaction →
    Run (Except TransactionError PartiallySignedTransaction)
  | out, [] => pure (.ok out)
  | out, psbt :: rest => do
    match ← out.merge E psbt with
    | none => pure (.error .PSBT_MISMATCH)
    | some out => mergeLoop E out rest

def checkCombined : Except TransactionError PartiallySignedTransaction →
    Except TransactionError PartiallySignedTransaction
  | .error err => .error err
  | .ok out => if out.isSane then .ok out else .error .INVALID_PSBT

/-- `CombinePSBTs`: the combined PSBT, or the error that it returns. -/
def combinePSBTs (E : NodeEnv) :
    List PartiallySignedTransaction → Run (Except TransactionError PartiallySignedTransaction)
  | [] => .error (.undefined "psbtxs[0]")
  | first :: rest => do
    let merged ← mergeLoop E first rest
    pure (checkCombined merged)

/-! ### Fields

All fields but the two kinds of previous output are filled by an associative operation,
which commutes on values that agree. -/

section Fields

variable {α : Type}

def Agree (a b : Option α) : Prop := ∀ x y, a = some x → b = some y → x = y

theorem Agree.or_comm {a b : Option α} (h : Agree a b) : a.or b = b.or a := by
  cases a with
  | none => simp
  | some x =>
    cases b with
    | none => simp
    | some y => rw [h x y rfl rfl]

def AgreeList (a b : List α) : Prop := a ≠ [] → b ≠ [] → a = b

theorem fillEmpty_eq (a b : List α) : fillEmpty a b = if a = [] then b else a := by
  cases a <;> cases b <;> simp [fillEmpty]

theorem fillEmpty_assoc (a b c : List α) :
    fillEmpty (fillEmpty a b) c = fillEmpty a (fillEmpty b c) := by
  simp only [fillEmpty_eq]
  by_cases ha : a = [] <;> simp [ha]

theorem AgreeList.fillEmpty_comm {a b : List α} (h : AgreeList a b) :
    fillEmpty a b = fillEmpty b a := by
  rw [fillEmpty_eq, fillEmpty_eq]
  by_cases ha : a = []
  · by_cases hb : b = [] <;> simp [ha, hb]
  · by_cases hb : b = []
    · simp [ha, hb]
    · rw [if_neg ha, if_neg hb, h ha hb]

variable {K V : Type} [LinearOrder K]

def AgreeMap (a b : SortedMap K V) : Prop := ∀ key, Agree (a.find key) (b.find key)

theorem insertAll_assoc (a b c : SortedMap K V) :
    (a.insertAll b).insertAll c = a.insertAll (b.insertAll c) := by
  ext1 key
  simp [Option.or_assoc]

theorem AgreeMap.insertAll_comm {a b : SortedMap K V} (h : AgreeMap a b) :
    a.insertAll b = b.insertAll a := by
  ext1 key
  rw [SortedMap.find_insertAll, SortedMap.find_insertAll, (h key).or_comm]

theorem right_comm_of_assoc {f : α → α → α} (hassoc : ∀ a b c, f (f a b) c = f a (f b c))
    {x y : α} (hcomm : f x y = f y x) (z : α) : f (f z x) y = f (f z y) x := by
  rw [hassoc, hassoc, hcomm]

end Fields

/-! ### Inputs and outputs that agree -/

/-- No two give different values for the same field or key. -/
structure PSBTInput.Agree (a b : PSBTInput) : Prop where
  nonWitnessUtxo : VBitcoin.Agree a.nonWitnessUtxo b.nonWitnessUtxo
  witnessUtxo : VBitcoin.Agree a.witnessUtxo b.witnessUtxo
  redeemScript : AgreeList a.redeemScript b.redeemScript
  witnessScript : AgreeList a.witnessScript b.witnessScript
  finalScriptSig : AgreeList a.finalScriptSig b.finalScriptSig
  finalScriptWitness : AgreeList a.finalScriptWitness b.finalScriptWitness
  hdKeypaths : AgreeMap a.hdKeypaths b.hdKeypaths
  partialSigs : AgreeMap a.partialSigs b.partialSigs
  unknown : AgreeMap a.unknown b.unknown
  sighashType : a.sighashType ≠ 0 → b.sighashType ≠ 0 → a.sighashType = b.sighashType

structure PSBTOutput.Agree (a b : PSBTOutput) : Prop where
  redeemScript : AgreeList a.redeemScript b.redeemScript
  witnessScript : AgreeList a.witnessScript b.witnessScript
  hdKeypaths : AgreeMap a.hdKeypaths b.hdKeypaths
  unknown : AgreeMap a.unknown b.unknown

/-- No previous transaction beside a witness output of the other. -/
def PSBTInput.OneKind (a b : PSBTInput) : Prop :=
  a.nonWitnessUtxo.isSome = true → b.witnessUtxo.isSome = false

/-- Beyond agreement, for a merge in either order. -/
structure PSBTInput.Mergeable (a b : PSBTInput) : Prop where
  kinds : a.OneKind b
  sighashType : a.sighashType = b.sighashType

theorem PSBTInput.merge_comm {a b : PSBTInput} (h : a.Agree b) (ha : a.OneKind a)
    (hb : b.OneKind b) (hab : a.Mergeable b) (hba : b.Mergeable a) : a.merge b = b.merge a := by
  have hutxo := h.nonWitnessUtxo.or_comm
  ext1
  · -- a side with a witness output has no previous transaction, nor has the other
    have := hab.kinds
    have := hba.kinds
    cases hnonA : a.nonWitnessUtxo <;> cases hnonB : b.nonWitnessUtxo <;>
      cases hwitA : a.witnessUtxo <;> cases hwitB : b.witnessUtxo <;>
      simp_all [merge, OneKind]
  · exact h.witnessUtxo.or_comm
  · exact h.redeemScript.fillEmpty_comm
  · exact h.witnessScript.fillEmpty_comm
  · exact h.finalScriptSig.fillEmpty_comm
  · exact h.finalScriptWitness.fillEmpty_comm
  · exact h.hdKeypaths.insertAll_comm
  · exact h.partialSigs.insertAll_comm
  · exact h.unknown.insertAll_comm
  · exact hab.sighashType

variable {x : PSBTInput}

theorem PSBTInput.merge_right_comm {y : PSBTInput} (h : x.Agree y) (hx : x.OneKind x)
    (hy : y.OneKind y) (hxy : x.Mergeable y) (hyx : y.Mergeable x) (z : PSBTInput) :
    (z.merge x).merge y = (z.merge y).merge x := by
  have hutxo := h.nonWitnessUtxo.or_comm
  ext1
  · have := hxy.kinds
    have := hyx.kinds
    cases hnonX : x.nonWitnessUtxo <;> cases hnonY : y.nonWitnessUtxo <;>
      cases hwitX : x.witnessUtxo <;> cases hwitY : y.witnessUtxo <;>
      cases hwitZ : z.witnessUtxo <;> cases hnonZ : z.nonWitnessUtxo <;>
      simp_all [merge, OneKind]
  · exact right_comm_of_assoc (fun _ _ _ => Option.or_assoc) h.witnessUtxo.or_comm _
  · exact right_comm_of_assoc fillEmpty_assoc h.redeemScript.fillEmpty_comm _
  · exact right_comm_of_assoc fillEmpty_assoc h.witnessScript.fillEmpty_comm _
  · exact right_comm_of_assoc fillEmpty_assoc h.finalScriptSig.fillEmpty_comm _
  · exact right_comm_of_assoc fillEmpty_assoc h.finalScriptWitness.fillEmpty_comm _
  · exact right_comm_of_assoc insertAll_assoc h.hdKeypaths.insertAll_comm _
  · exact right_comm_of_assoc insertAll_assoc h.partialSigs.insertAll_comm _
  · exact right_comm_of_assoc insertAll_assoc h.unknown.insertAll_comm _
  · rfl

theorem PSBTOutput.merge_comm {a b : PSBTOutput} (h : a.Agree b) : a.merge b = b.merge a := by
  ext1
  · exact h.redeemScript.fillEmpty_comm
  · exact h.witnessScript.fillEmpty_comm
  · exact h.hdKeypaths.insertAll_comm
  · exact h.unknown.insertAll_comm

theorem PSBTOutput.merge_right_comm {x y : PSBTOutput} (h : x.Agree y) (z : PSBTOutput) :
    (z.merge x).merge y = (z.merge y).merge x := by
  ext1
  · exact right_comm_of_assoc fillEmpty_assoc h.redeemScript.fillEmpty_comm _
  · exact right_comm_of_assoc fillEmpty_assoc h.witnessScript.fillEmpty_comm _
  · exact right_comm_of_assoc insertAll_assoc h.hdKeypaths.insertAll_comm _
  · exact right_comm_of_assoc insertAll_assoc h.unknown.insertAll_comm _

/-! ### Lists of records -/

section MergeEach

variable {α : Type} {merge : α → α → α}

theorem getElem?_mergeEach : ∀ (xs ys : List α) (i : Nat), (mergeEach merge xs ys)[i]? =
    xs[i]?.map fun x => (ys[i]?.map (merge x)).getD x
  | [], _, _ => rfl
  | x :: xs, [], i => by cases h : (x :: xs)[i]? <;> simp [mergeEach, h]
  | x :: xs, y :: ys, 0 => rfl
  | x :: xs, y :: ys, i + 1 => by
    simpa [mergeEach] using getElem?_mergeEach xs ys i

variable {xs ys : List α}

theorem exists_getElem?_mergeEach {P : α → Prop} {i : Nat}
    (hmerge : ∀ x y, P x → P (merge x y)) (h : ∃ x, xs[i]? = some x ∧ P x) :
    ∃ z, (mergeEach merge xs ys)[i]? = some z ∧ P z := by
  obtain ⟨x, hx, hP⟩ := h
  rw [getElem?_mergeEach, hx]
  cases ys[i]? with
  | some y => exact ⟨merge x y, rfl, hmerge x y hP⟩
  | none => exact ⟨x, rfl, hP⟩

theorem mergeEach_right_comm (h : ∀ (i : Nat) x y, xs[i]? = some x →
    ys[i]? = some y → ∀ z, merge (merge z x) y = merge (merge z y) x) (zs : List α) :
    mergeEach merge (mergeEach merge zs xs) ys = mergeEach merge (mergeEach merge zs ys) xs := by
  apply ext_getElem?
  intro i
  simp only [getElem?_mergeEach]
  cases hz : zs[i]? with
  | none => rfl
  | some z =>
    cases hx : xs[i]? with
    | none => simp
    | some x =>
      cases hy : ys[i]? with
      | none => simp
      | some y => simpa using h i x y hx hy z

theorem mergeEach_comm (hlength : xs.length = ys.length)
    (h : ∀ (i : Nat) x y, xs[i]? = some x → ys[i]? = some y → merge x y = merge y x) :
    mergeEach merge xs ys = mergeEach merge ys xs := by
  apply ext_getElem?
  intro i
  simp only [getElem?_mergeEach]
  by_cases hi : i < xs.length
  · rw [getElem?_eq_getElem hi, getElem?_eq_getElem (hlength ▸ hi)]
    simpa using h i _ _ (getElem?_eq_getElem hi) (getElem?_eq_getElem (hlength ▸ hi))
  · rw [getElem?_eq_none (not_lt.mp hi), getElem?_eq_none (hlength ▸ not_lt.mp hi)]

theorem foldl_eq_of_perm {a b : α} {l m : List α} (hperm : (a :: l).Perm (b :: m))
    (hcomm : ∀ x ∈ a :: l, ∀ y ∈ a :: l, merge x y = merge y x)
    (hright : ∀ x ∈ a :: l, ∀ y ∈ a :: l, ∀ z, merge (merge z x) y = merge (merge z y) x) :
    l.foldl merge a = m.foldl merge b := by
  have hin : ∀ {k : List α}, k.Perm l → ∀ init, l.foldl merge init = k.foldl merge init := by
    intro k hk init
    exact hk.symm.foldl_eq' (fun x hx y hy z =>
      hright x (mem_cons_of_mem a hx) y (mem_cons_of_mem a hy) z) init
  have hb : b ∈ a :: l := hperm.mem_iff.mpr mem_cons_self
  rcases mem_cons.mp hb with rfl | hmem
  · exact hin ((perm_cons b).mp hperm).symm b
  · -- the first two change places, and the rest is in another order
    obtain ⟨s, t, rfl⟩ := append_of_mem hmem
    have hrest : m.Perm (a :: (s ++ t)) := by
      have hmiddle : (a :: (s ++ b :: t)).Perm (b :: a :: (s ++ t)) :=
        (perm_middle.cons a).trans (List.Perm.swap b a (s ++ t))
      exact (perm_cons b).mp (hperm.symm.trans hmiddle)
    calc (s ++ b :: t).foldl merge a
        = (b :: (s ++ t)).foldl merge a := hin perm_middle.symm a
      _ = (s ++ t).foldl merge (merge a b) := rfl
      _ = (s ++ t).foldl merge (merge b a) := by rw [hcomm a mem_cons_self b hb]
      _ = (a :: (s ++ t)).foldl merge b := rfl
      _ = m.foldl merge b := hrest.symm.foldl_eq' (fun x hx y hy z =>
          hright x (hperm.mem_iff.mpr (mem_cons_of_mem b (hrest.mem_iff.mpr hx))) y
            (hperm.mem_iff.mpr (mem_cons_of_mem b (hrest.mem_iff.mpr hy))) z) b

end MergeEach

/-! ### PSBTs over one transaction -/

theorem PSBTInput.isSane_iff : x.isSane = true ↔ x.OneKind x ∧
    (x.witnessScript ≠ [] → x.witnessUtxo.isSome = true) ∧
    (x.finalScriptWitness ≠ [] → x.witnessUtxo.isSome = true) := by
  unfold isSane OneKind
  cases x.witnessUtxo <;> cases x.nonWitnessUtxo <;> cases x.witnessScript <;>
    cases x.finalScriptWitness <;> simp

namespace PartiallySignedTransaction

variable {p q r : PartiallySignedTransaction}

theorem isSane_iff : p.isSane = true ↔
    ∀ (i : Nat) x, p.inputs[i]? = some x → x.isSane = true := by
  unfold isSane
  rw [all_eq_true]
  constructor
  · intro h i x hx
    exact h x (mem_of_getElem? hx)
  · intro h x hx
    obtain ⟨i, hi⟩ := mem_iff_getElem?.mp hx
    exact h i x hi

/-- No two records at the same place give different values for the same field or key. -/
structure Agree (p q : PartiallySignedTransaction) : Prop where
  inputs : ∀ (i : Nat) x y, p.inputs[i]? = some x → q.inputs[i]? = some y → x.Agree y
  outputs : ∀ (i : Nat) x y, p.outputs[i]? = some x → q.outputs[i]? = some y → x.Agree y
  unknown : AgreeMap p.unknown q.unknown

/-- No input has a previous transaction in `p` and a witness output in `q`. -/
def OneKind (p q : PartiallySignedTransaction) : Prop :=
  ∀ (i : Nat) x y, p.inputs[i]? = some x → q.inputs[i]? = some y → x.OneKind y

/-- At every input, one kind of previous output and the same sighash type. -/
def Mergeable (p q : PartiallySignedTransaction) : Prop :=
  ∀ (i : Nat) x y, p.inputs[i]? = some x → q.inputs[i]? = some y → x.Mergeable y

variable {i : Nat} {x : PSBTInput}

theorem oneKind_self (h : p.isSane = true) (hx : p.inputs[i]? = some x) : x.OneKind x :=
  (PSBTInput.isSane_iff.mp (isSane_iff.mp h i x hx)).1

theorem mergeRecords_comm (htx : p.tx = q.tx) (h : p.Agree q) (hp : p.isSane = true)
    (hq : q.isSane = true) (hpq : p.Mergeable q) (hqp : q.Mergeable p) :
    p.mergeRecords q = q.mergeRecords p := by
  have hinputs : p.inputs.length = q.inputs.length := by rw [p.inputsSize, q.inputsSize, htx]
  have houtputs : p.outputs.length = q.outputs.length := by
    rw [p.outputsSize, q.outputsSize, htx]
  ext1
  · exact htx
  · apply mergeEach_comm hinputs
    intro i x y hx hy
    exact PSBTInput.merge_comm (h.inputs i x y hx hy) (oneKind_self hp hx) (oneKind_self hq hy)
      (hpq i x y hx hy) (hqp i y x hy hx)
  · apply mergeEach_comm houtputs
    intro i x y hx hy
    exact PSBTOutput.merge_comm (h.outputs i x y hx hy)
  · exact h.unknown.insertAll_comm

theorem mergeRecords_right_comm (h : p.Agree q) (hp : p.isSane = true) (hq : q.isSane = true)
    (hpq : p.Mergeable q) (hqp : q.Mergeable p) (z : PartiallySignedTransaction) :
    (z.mergeRecords p).mergeRecords q = (z.mergeRecords q).mergeRecords p := by
  ext1
  · rfl
  · apply mergeEach_right_comm
    intro i x y hx hy
    exact PSBTInput.merge_right_comm (h.inputs i x y hx hy) (oneKind_self hp hx)
      (oneKind_self hq hy) (hpq i x y hx hy) (hqp i y x hy hx)
  · apply mergeEach_right_comm
    intro i x y hx hy
    exact PSBTOutput.merge_right_comm (h.outputs i x y hx hy)
  · exact right_comm_of_assoc insertAll_assoc h.unknown.insertAll_comm _

theorem mergeRecords_input {z : PSBTInput} (htx : q.tx = p.tx)
    (h : (p.mergeRecords q).inputs[i]? = some z) :
    ∃ x y, p.inputs[i]? = some x ∧ q.inputs[i]? = some y ∧ z = x.merge y := by
  have hmerged : p.inputs[i]?.map (fun x => (q.inputs[i]?.map x.merge).getD x) = some z :=
    (getElem?_mergeEach _ _ _).symm.trans h
  obtain ⟨x, hx, hz⟩ := Option.map_eq_some_iff.mp hmerged
  have hi : i < q.inputs.length := by
    rw [q.inputsSize, htx, ← p.inputsSize]
    exact (List.getElem?_eq_some_iff.mp hx).1
  refine ⟨x, _, hx, getElem?_eq_getElem hi, ?_⟩
  rw [← hz, getElem?_eq_getElem hi]
  rfl

theorem input_mergeRecords {y : PSBTInput} (hx : p.inputs[i]? = some x)
    (hy : q.inputs[i]? = some y) : (p.mergeRecords q).inputs[i]? = some (x.merge y) := by
  refine (getElem?_mergeEach _ _ _).trans ?_
  rw [hx, hy]
  rfl

end PartiallySignedTransaction

/-! ### Sanity of the result -/

namespace PSBTInput

variable {x y z : PSBTInput}

theorem merge_oneKind (hx : x.OneKind z) (hy : y.OneKind z) : (x.merge y).OneKind z := by
  unfold OneKind merge at *
  cases hnonX : x.nonWitnessUtxo <;> cases hnonY : y.nonWitnessUtxo <;>
    cases x.witnessUtxo <;> cases y.witnessUtxo <;> simp_all

theorem oneKind_merge (hx : z.OneKind x) (hy : z.OneKind y) : z.OneKind (x.merge y) := by
  intro hz
  simp [merge, hx hz, hy hz, Option.isSome_or]

theorem merge_isSane (hx : x.isSane = true) (hy : y.isSane = true) (hxy : x.OneKind y)
    (hyx : y.OneKind x) : (x.merge y).isSane = true := by
  rw [isSane_iff] at hx hy ⊢
  have hwitness : x.witnessUtxo.isSome = true ∨ y.witnessUtxo.isSome = true →
      (x.merge y).witnessUtxo.isSome = true := by simp [merge, Option.isSome_or]
  refine ⟨oneKind_merge (merge_oneKind hx.1 hyx) (merge_oneKind hxy hy.1), ?_, ?_⟩
  · intro hscript
    apply hwitness
    by_cases hempty : x.witnessScript = []
    · refine Or.inr (hy.2.1 ?_)
      simpa [merge, fillEmpty_eq, hempty] using hscript
    · exact Or.inl (hx.2.1 hempty)
  · intro hscript
    apply hwitness
    by_cases hempty : x.finalScriptWitness = []
    · refine Or.inr (hy.2.2 ?_)
      simpa [merge, fillEmpty_eq, hempty] using hscript
    · exact Or.inl (hx.2.2 hempty)

def BothKinds (x : PSBTInput) : Prop :=
  x.nonWitnessUtxo.isSome = true ∧ x.witnessUtxo.isSome = true

theorem BothKinds.merge (h : x.BothKinds) (y : PSBTInput) : (x.merge y).BothKinds := by
  obtain ⟨hnon, hwit⟩ := h
  obtain ⟨prev, hprev⟩ := Option.isSome_iff_exists.mp hnon
  obtain ⟨out, hout⟩ := Option.isSome_iff_exists.mp hwit
  simp [BothKinds, PSBTInput.merge, hprev, hout]

theorem BothKinds.not_isSane (h : x.BothKinds) : x.isSane = false := by
  simp [isSane, h.1, h.2]

theorem bothKinds_merge (hself : x.OneKind x) (hwit : x.witnessUtxo.isSome = true)
    (hnon : y.nonWitnessUtxo.isSome = true) : (x.merge y).BothKinds := by
  have hnone : x.nonWitnessUtxo = none := by
    cases hprev : x.nonWitnessUtxo with
    | none => rfl
    | some prev =>
      have := hself (by rw [hprev]; rfl)
      simp_all
  obtain ⟨out, hout⟩ := Option.isSome_iff_exists.mp hwit
  simp [BothKinds, PSBTInput.merge, hout, hnone, hnon]

end PSBTInput

namespace PartiallySignedTransaction

variable {p q r : PartiallySignedTransaction}

theorem mergeRecords_oneKind (htx : q.tx = p.tx) (hp : p.OneKind r) (hq : q.OneKind r) :
    (p.mergeRecords q).OneKind r := by
  intro i z w hz hw
  obtain ⟨x, y, hx, hy, rfl⟩ := mergeRecords_input htx hz
  exact PSBTInput.merge_oneKind (hp i x w hx hw) (hq i y w hy hw)

theorem oneKind_mergeRecords (htx : q.tx = p.tx) (hp : r.OneKind p) (hq : r.OneKind q) :
    r.OneKind (p.mergeRecords q) := by
  intro i w z hw hz
  obtain ⟨x, y, hx, hy, rfl⟩ := mergeRecords_input htx hz
  exact PSBTInput.oneKind_merge (hp i w x hw hx) (hq i w y hw hy)

theorem mergeRecords_isSane (htx : q.tx = p.tx) (hp : p.isSane = true) (hq : q.isSane = true)
    (hpq : p.OneKind q) (hqp : q.OneKind p) : (p.mergeRecords q).isSane = true := by
  rw [isSane_iff] at *
  intro i z hz
  obtain ⟨x, y, hx, hy, rfl⟩ := mergeRecords_input htx hz
  exact PSBTInput.merge_isSane (hp i x hx) (hq i y hy) (hpq i x y hx hy) (hqp i y x hy hx)

theorem foldl_isSane : ∀ {l : List PartiallySignedTransaction} {p : PartiallySignedTransaction},
    (∀ q ∈ l, q.tx = p.tx) → p.isSane = true → (∀ q ∈ l, q.isSane = true) →
    (∀ q ∈ l, p.OneKind q ∧ q.OneKind p) → (∀ q ∈ l, ∀ r ∈ l, q.OneKind r) →
    (l.foldl mergeRecords p).isSane = true
  | [], _, _, hp, _, _, _ => hp
  | q :: l, p, htx, hp, hsane, hwith, hall => by
    have hq := forall_mem_cons.mp htx
    have hkind := hwith q mem_cons_self
    refine foldl_isSane (p := p.mergeRecords q) hq.2 ?_ ?_ ?_ ?_
    · exact mergeRecords_isSane hq.1 hp (hsane q mem_cons_self) hkind.1 hkind.2
    · exact (forall_mem_cons.mp hsane).2
    · intro r hr
      have hmem := mem_cons_of_mem q hr
      exact ⟨mergeRecords_oneKind hq.1 (hwith r hmem).1 (hall q mem_cons_self r hmem),
        oneKind_mergeRecords hq.1 (hwith r hmem).2 (hall r hmem q mem_cons_self)⟩
    · exact fun r hr s hs => hall r (mem_cons_of_mem q hr) s (mem_cons_of_mem q hs)

variable {i : Nat}

theorem foldl_input {P : PSBTInput → Prop} (hmerge : ∀ x y, P x → P (x.merge y))
    (l : List PartiallySignedTransaction) (h : ∃ x, p.inputs[i]? = some x ∧ P x) :
    ∃ z, (l.foldl mergeRecords p).inputs[i]? = some z ∧ P z := by
  refine List.foldlRecOn (motive := fun c => ∃ z, c.inputs[i]? = some z ∧ P z) l mergeRecords h ?_
  intro c hc q _
  exact exists_getElem?_mergeEach hmerge hc

theorem foldl_output {P : PSBTOutput → Prop} (hmerge : ∀ x y, P x → P (x.merge y))
    (l : List PartiallySignedTransaction) (h : ∃ x, p.outputs[i]? = some x ∧ P x) :
    ∃ z, (l.foldl mergeRecords p).outputs[i]? = some z ∧ P z := by
  refine List.foldlRecOn (motive := fun c => ∃ z, c.outputs[i]? = some z ∧ P z) l mergeRecords h ?_
  intro c hc q _
  exact exists_getElem?_mergeEach hmerge hc

theorem foldl_unknown {key value : Bytes} (l : List PartiallySignedTransaction)
    (h : p.unknown.find key = some value) :
    (l.foldl mergeRecords p).unknown.find key = some value := by
  refine List.foldlRecOn (motive := fun c => c.unknown.find key = some value) l mergeRecords h ?_
  rintro c hc q -
  simp [mergeRecords, hc]

end PartiallySignedTransaction

/-! ### What a combination holds -/

/-- All scripts, signatures, key paths and unknown entries of `x`. -/
structure PSBTInput.Holds (c x : PSBTInput) : Prop where
  redeemScript : x.redeemScript ≠ [] → c.redeemScript = x.redeemScript
  witnessScript : x.witnessScript ≠ [] → c.witnessScript = x.witnessScript
  finalScriptSig : x.finalScriptSig ≠ [] → c.finalScriptSig = x.finalScriptSig
  finalScriptWitness : x.finalScriptWitness ≠ [] → c.finalScriptWitness = x.finalScriptWitness
  hdKeypaths : ∀ key path, x.hdKeypaths.find key = some path → c.hdKeypaths.find key = some path
  partialSigs : ∀ key sig, x.partialSigs.find key = some sig → c.partialSigs.find key = some sig
  unknown : ∀ key value, x.unknown.find key = some value → c.unknown.find key = some value
  sighashType : x.sighashType ≠ 0 → c.sighashType = x.sighashType

structure PSBTOutput.Holds (c x : PSBTOutput) : Prop where
  redeemScript : x.redeemScript ≠ [] → c.redeemScript = x.redeemScript
  witnessScript : x.witnessScript ≠ [] → c.witnessScript = x.witnessScript
  hdKeypaths : ∀ key path, x.hdKeypaths.find key = some path → c.hdKeypaths.find key = some path
  unknown : ∀ key value, x.unknown.find key = some value → c.unknown.find key = some value

structure PartiallySignedTransaction.Holds (c p : PartiallySignedTransaction) : Prop where
  inputs : ∀ (i : Nat) x, p.inputs[i]? = some x → ∃ z, c.inputs[i]? = some z ∧ z.Holds x
  outputs : ∀ (i : Nat) x, p.outputs[i]? = some x → ∃ z, c.outputs[i]? = some z ∧ z.Holds x
  unknown : ∀ key value, p.unknown.find key = some value → c.unknown.find key = some value

theorem fillEmpty_of_eq {α : Type} {c x y : List α} (h : x ≠ [] → c = x) (hx : x ≠ []) :
    fillEmpty c y = x := by
  rw [fillEmpty_eq, if_neg (h hx ▸ hx), h hx]

theorem PSBTInput.Holds.merge {c : PSBTInput} (h : c.Holds x) (y : PSBTInput) :
    (c.merge y).Holds x where
  redeemScript := fillEmpty_of_eq h.redeemScript
  witnessScript := fillEmpty_of_eq h.witnessScript
  finalScriptSig := fillEmpty_of_eq h.finalScriptSig
  finalScriptWitness := fillEmpty_of_eq h.finalScriptWitness
  hdKeypaths key path hx := by simp [PSBTInput.merge, h.hdKeypaths key path hx]
  partialSigs key sig hx := by simp [PSBTInput.merge, h.partialSigs key sig hx]
  unknown key value hx := by simp [PSBTInput.merge, h.unknown key value hx]
  sighashType := h.sighashType

theorem PSBTOutput.Holds.merge {c x : PSBTOutput} (h : c.Holds x) (y : PSBTOutput) :
    (c.merge y).Holds x where
  redeemScript := fillEmpty_of_eq h.redeemScript
  witnessScript := fillEmpty_of_eq h.witnessScript
  hdKeypaths key path hx := by simp [PSBTOutput.merge, h.hdKeypaths key path hx]
  unknown key value hx := by simp [PSBTOutput.merge, h.unknown key value hx]

theorem PartiallySignedTransaction.foldl_holds (l : List PartiallySignedTransaction)
    (p : PartiallySignedTransaction) : (l.foldl mergeRecords p).Holds p where
  inputs i x hx := by
    apply foldl_input fun c y (h : c.Holds x) => h.merge y
    exact ⟨x, hx, by constructor <;> simp⟩
  outputs i x hx := by
    apply foldl_output fun c y (h : c.Holds x) => h.merge y
    exact ⟨x, hx, by constructor <;> simp⟩
  unknown _ _ hvalue := foldl_unknown l hvalue

/-! ### `CombinePSBTs` -/

section Combine

variable (E : NodeEnv)

variable {p : PartiallySignedTransaction}

theorem merge_of_tx_eq {q : PartiallySignedTransaction} (h : q.tx = p.tx) :
    p.merge E q = .ok (some (p.mergeRecords q)) := by
  have hinputs : p.inputs.length ≤ q.inputs.length := by rw [p.inputsSize, q.inputsSize, h]
  have houtputs : p.outputs.length ≤ q.outputs.length := by rw [p.outputsSize, q.outputsSize, h]
  simp [PartiallySignedTransaction.merge, h, hinputs, houtputs]

theorem mergeLoop_of_tx_eq : ∀ {l : List PartiallySignedTransaction}
    {p : PartiallySignedTransaction}, (∀ q ∈ l, q.tx = p.tx) →
      mergeLoop E p l = .ok (.ok (l.foldl PartiallySignedTransaction.mergeRecords p))
  | [], _, _ => rfl
  | q :: l, p, h => by
    have hq := forall_mem_cons.mp h
    have hrest : ∀ r ∈ l, r.tx = (p.mergeRecords q).tx := hq.2
    rw [mergeLoop, merge_of_tx_eq E hq.1, ok_bind, foldl_cons]
    exact mergeLoop_of_tx_eq hrest

theorem combinePSBTs_of_tx_eq {l : List PartiallySignedTransaction} (h : ∀ q ∈ l, q.tx = p.tx) :
    combinePSBTs E (p :: l) =
      .ok (checkCombined (.ok (l.foldl PartiallySignedTransaction.mergeRecords p))) := by
  rw [combinePSBTs, mergeLoop_of_tx_eq E h, ok_bind]
  rfl

theorem checkCombined_eq_ok {c : PartiallySignedTransaction} :
    checkCombined (.ok p) = .ok c ↔ p.isSane = true ∧ c = p := by
  rw [checkCombined]
  split
  · rename_i hsane
    simp only [hsane, true_and, Except.ok.injEq]
    exact eq_comm
  · rename_i hsane
    simp [hsane]

end Combine

section Order

variable (E : NodeEnv) {psbts : List PartiallySignedTransaction} {tx : CTransaction}
  {combined p q : PartiallySignedTransaction}

theorem tx_eq_of_perm {l : List PartiallySignedTransaction} (htx : ∀ p ∈ psbts, p.tx = tx)
    (hperm : (p :: l).Perm psbts) : ∀ q ∈ l, q.tx = p.tx := by
  intro q hq
  rw [htx q (hperm.mem_iff.mp (mem_cons_of_mem p hq)),
    htx p (hperm.mem_iff.mp mem_cons_self)]

theorem combinePSBTs_of_mergeable {first : PartiallySignedTransaction}
    {rest : List PartiallySignedTransaction} (htx : ∀ p ∈ first :: rest, p.tx = tx)
    (hsane : ∀ p ∈ first :: rest, p.isSane = true)
    (hagree : ∀ p ∈ first :: rest, ∀ q ∈ first :: rest, p.Agree q)
    (hmerge : ∀ p ∈ first :: rest, ∀ q ∈ first :: rest, p.Mergeable q) :
    ∀ l : List PartiallySignedTransaction, l.Perm (first :: rest) → combinePSBTs E l =
      .ok (.ok (rest.foldl PartiallySignedTransaction.mergeRecords first)) := by
  intro l hperm
  have hkind : ∀ p ∈ first :: rest, ∀ q ∈ first :: rest, p.OneKind q := by
    intro p hp q hq i x y hx hy
    exact (hmerge p hp q hq i x y hx hy).kinds
  cases l with
  | nil => exact absurd hperm.length_eq (by simp)
  | cons p l =>
    have hfold : rest.foldl PartiallySignedTransaction.mergeRecords first =
        l.foldl PartiallySignedTransaction.mergeRecords p := by
      apply foldl_eq_of_perm hperm.symm
      · intro x hx y hy
        exact PartiallySignedTransaction.mergeRecords_comm ((htx x hx).trans (htx y hy).symm)
          (hagree x hx y hy) (hsane x hx) (hsane y hy) (hmerge x hx y hy) (hmerge y hy x hx)
      · intro x hx y hy z
        exact PartiallySignedTransaction.mergeRecords_right_comm (hagree x hx y hy) (hsane x hx)
          (hsane y hy) (hmerge x hx y hy) (hmerge y hy x hx) z
    have hfirst := mem_cons_self (a := first) (l := rest)
    have htail : ∀ {q}, q ∈ rest → q ∈ first :: rest := mem_cons_of_mem first
    rw [combinePSBTs_of_tx_eq E (tx_eq_of_perm htx hperm), ← hfold, checkCombined, if_pos]
    apply PartiallySignedTransaction.foldl_isSane
    · exact fun q hq => (htx q (htail hq)).trans (htx first hfirst).symm
    · exact hsane first hfirst
    · exact fun q hq => hsane q (htail hq)
    · exact fun q hq => ⟨hkind first hfirst q (htail hq), hkind q (htail hq) first hfirst⟩
    · exact fun q hq r hr => hkind q (htail hq) r (htail hr)

variable {i : Nat} {x : PSBTInput}

theorem sighashType_of_combined (htx : ∀ p ∈ psbts, p.tx = tx)
    (hall : ∀ l : List PartiallySignedTransaction, l.Perm psbts →
      combinePSBTs E l = .ok (.ok combined)) (hp : p ∈ psbts) (hx : p.inputs[i]? = some x) :
    combined.inputs[i]?.map PSBTInput.sighashType = some x.sighashType := by
  obtain ⟨s, t, rfl⟩ := append_of_mem hp
  have hperm : (p :: (s ++ t)).Perm (s ++ p :: t) := perm_middle.symm
  have hfirst := hall _ hperm
  rw [combinePSBTs_of_tx_eq E (tx_eq_of_perm htx hperm)] at hfirst
  obtain ⟨-, rfl⟩ := checkCombined_eq_ok.mp (Except.ok.inj hfirst)
  obtain ⟨z, hz, hsighash⟩ := PartiallySignedTransaction.foldl_input (i := i) (p := p)
    (P := fun z => z.sighashType = x.sighashType) (fun _ _ h => h) (s ++ t) ⟨x, hx, rfl⟩
  rw [hz, Option.map_some, hsighash]

/-- In the wrong order the result is not sane. -/
theorem oneKind_of_combined {y : PSBTInput} (htx : ∀ p ∈ psbts, p.tx = tx)
    (hsane : ∀ p ∈ psbts, p.isSane = true)
    (hall : ∀ l : List PartiallySignedTransaction, l.Perm psbts →
      combinePSBTs E l = .ok (.ok combined)) (hp : p ∈ psbts) (hq : q ∈ psbts)
    (hx : p.inputs[i]? = some x) (hy : q.inputs[i]? = some y) : x.OneKind y := by
  intro hnon
  by_contra hwit
  rw [Bool.not_eq_false] at hwit
  have hself := PartiallySignedTransaction.oneKind_self (hsane q hq) hy
  have hne : p ≠ q := by
    rintro rfl
    rw [hx] at hy
    cases hy
    have := hself hnon
    simp_all
  obtain ⟨s, t, rfl⟩ := append_of_mem hq
  have hmem : p ∈ s ++ t := by
    rcases mem_append.mp hp with hs | ht
    · exact mem_append_left t hs
    · exact mem_append_right s ((mem_cons.mp ht).resolve_left hne)
  obtain ⟨s', t', hsplit⟩ := append_of_mem hmem
  have hperm : (q :: p :: (s' ++ t')).Perm (s ++ q :: t) :=
    ((hsplit ▸ perm_middle.symm : (p :: (s' ++ t')).Perm (s ++ t)).cons q).trans
      perm_middle.symm
  have hfirst := hall _ hperm
  rw [combinePSBTs_of_tx_eq E (tx_eq_of_perm htx hperm), foldl_cons] at hfirst
  obtain ⟨hresult, -⟩ := checkCombined_eq_ok.mp (Except.ok.inj hfirst)
  obtain ⟨z, hz, hboth⟩ := PartiallySignedTransaction.foldl_input (i := i)
    (P := PSBTInput.BothKinds) (fun _ y h => h.merge y) (s' ++ t')
    ⟨_, PartiallySignedTransaction.input_mergeRecords hy hx,
      PSBTInput.bothKinds_merge hself hwit hnon⟩
  have := PartiallySignedTransaction.isSane_iff.mp hresult i z hz
  rw [hboth.not_isSane] at this
  exact Bool.noConfusion this

end Order

/-- **The order of PSBTs matters only through two fields**: those that agree combine in every order
    to one result just when each input has one kind of previous output and one sighash type. -/
theorem combinePSBTs_perm_iff (E : NodeEnv) {psbts : List PartiallySignedTransaction}
    {tx : CTransaction} (hne : psbts ≠ []) (htx : ∀ p ∈ psbts, p.tx = tx)
    (hsane : ∀ p ∈ psbts, p.isSane = true) (hagree : ∀ p ∈ psbts, ∀ q ∈ psbts, p.Agree q) :
    (∃ combined, (∀ l : List PartiallySignedTransaction, l.Perm psbts →
        combinePSBTs E l = .ok (.ok combined)) ∧ ∀ p ∈ psbts, combined.Holds p) ↔
      ∀ p ∈ psbts, ∀ q ∈ psbts, p.Mergeable q := by
  constructor
  · rintro ⟨combined, hall, -⟩ p hp q hq i x y hx hy
    constructor
    · exact oneKind_of_combined E htx hsane hall hp hq hx hy
    · exact Option.some.inj ((sighashType_of_combined E htx hall hp hx).symm.trans
        (sighashType_of_combined E htx hall hq hy))
  · intro hmerge
    cases psbts with
    | nil => exact absurd rfl hne
    | cons first rest =>
      have hresult := combinePSBTs_of_mergeable E htx hsane hagree hmerge
      refine ⟨_, hresult, fun p hp => ?_⟩
      -- the PSBT may come first
      obtain ⟨s, t, hsplit⟩ := append_of_mem hp
      have hperm : (p :: (s ++ t)).Perm (first :: rest) := hsplit ▸ perm_middle.symm
      have hfirst := hresult _ hperm
      rw [combinePSBTs_of_tx_eq E (tx_eq_of_perm htx hperm)] at hfirst
      obtain ⟨-, heq⟩ := checkCombined_eq_ok.mp (Except.ok.inj hfirst)
      rw [heq]
      exact PartiallySignedTransaction.foldl_holds (s ++ t) p

namespace Regtest

def unsignedSpend : CTransaction where
  vin := [{ prevout := ⟨foldHash (genesisTx.serialize false), 0⟩, scriptSig := [], nSequence := 0 }]
  vout := []

def spendPsbt (input : PSBTInput) : PartiallySignedTransaction where
  tx := unsignedSpend
  inputs := [input]
  outputs := []
  inputsSize := rfl
  outputsSize := rfl

def prevInput : PSBTInput := { nonWitnessUtxo := some genesisTx }

def witnessInput : PSBTInput := { witnessUtxo := some ⟨500000000, [0x00, 0x14]⟩ }

def sighashInput : PSBTInput := { sighashType := 1 }

def scriptInput : PSBTInput := { redeemScript := [0x51], sighashType := 1 }

theorem forall_single {α : Type} {R : α → α → Prop} {a b : α} (h : R a b) :
    ∀ (i : Nat) x y, [a][i]? = some x → [b][i]? = some y → R x y := by
  intro i x y hx hy
  cases i with
  | zero =>
    cases hx
    cases hy
    exact h
  | succ i => cases hx

variable {a b : PSBTInput}

theorem spendPsbt_agree (h : a.Agree b) : (spendPsbt a).Agree (spendPsbt b) where
  inputs := forall_single h
  outputs _ _ _ hx := by cases hx
  unknown _ _ _ hx := by cases hx

theorem spendPsbts_agree (hab : a.Agree b) (hba : b.Agree a) :
    ∀ p ∈ [spendPsbt a, spendPsbt b], ∀ q ∈ [spendPsbt a, spendPsbt b], p.Agree q := by
  have hself : ∀ x : PSBTInput, x.Agree x := by
    intro x
    constructor
    all_goals simp +contextual [Agree, AgreeList, AgreeMap]
  simp only [forall_mem_cons, not_mem_nil, false_implies, implies_true, and_true]
  exact ⟨⟨spendPsbt_agree (hself a), spendPsbt_agree hab⟩, spendPsbt_agree hba,
    spendPsbt_agree (hself b)⟩

theorem prevInput_agree_witnessInput :
    prevInput.Agree witnessInput ∧ witnessInput.Agree prevInput := by
  constructor <;> constructor <;> simp [Agree, AgreeList, AgreeMap, prevInput, witnessInput]

theorem sighashInput_agree_scriptInput :
    sighashInput.Agree scriptInput ∧ scriptInput.Agree sighashInput := by
  constructor <;> constructor <;> simp [Agree, AgreeList, AgreeMap, sighashInput, scriptInput]

theorem scripts_combine : ∃ combined, (∀ l : List PartiallySignedTransaction,
    l.Perm [spendPsbt sighashInput, spendPsbt scriptInput] →
      combinePSBTs env l = .ok (.ok combined)) ∧
    ∀ p ∈ [spendPsbt sighashInput, spendPsbt scriptInput], combined.Holds p := by
  have htx : ∀ p ∈ [spendPsbt sighashInput, spendPsbt scriptInput], p.tx = unsignedSpend := by
    simp [spendPsbt]
  apply (combinePSBTs_perm_iff env (cons_ne_nil _ _) htx (by decide)
    (spendPsbts_agree sighashInput_agree_scriptInput.1 sighashInput_agree_scriptInput.2)).mpr
  simp only [forall_mem_cons, not_mem_nil, false_implies, implies_true, and_true]
  refine ⟨⟨?_, ?_⟩, ?_, ?_⟩
  all_goals exact forall_single ⟨by simp [PSBTInput.OneKind, sighashInput, scriptInput], rfl⟩

/-- Refused in one order, dropped in the other; and a sighash type is lost. -/
theorem combine_order_matters :
    (∀ p ∈ [spendPsbt prevInput, spendPsbt witnessInput],
      ∀ q ∈ [spendPsbt prevInput, spendPsbt witnessInput], p.Agree q) ∧
    (spendPsbt prevInput).isSane = true ∧ (spendPsbt witnessInput).isSane = true ∧
    combinePSBTs env [spendPsbt prevInput, spendPsbt witnessInput] =
      .ok (.ok (spendPsbt witnessInput)) ∧
    combinePSBTs env [spendPsbt witnessInput, spendPsbt prevInput] =
      .ok (.error .INVALID_PSBT) ∧
    combinePSBTs env [spendPsbt {}, spendPsbt sighashInput] = .ok (.ok (spendPsbt {})) := by
  refine ⟨spendPsbts_agree prevInput_agree_witnessInput.1 prevInput_agree_witnessInput.2, ?_⟩
  decide +kernel

end Regtest

end VBitcoin
