import VBitcoin.Psbt
import VBitcoin.TxEncoding
import VBitcoin.VerifyScript

/-!
**Reading a PSBT and using what it says about previous outputs** (`psbt.h`, `psbt.cpp`) —
`DecodeRawPSBT`, and the readers `GetInputUTXO`, `SignPSBTInput` and `FinalizePSBT`.  The
parser compares the hash of a previous transaction with the outpoint, but never the index with
the number of outputs, and the readers index without asking.
-/

namespace VBitcoin

open Codec List

/-! ### Key-value maps -/

/-- The key of the next entry; the stream may not end before the separator. -/
def readKey (missing : String) : ByteReader Bytes := do
  let rest ← get
  if rest.isEmpty then throw missing else readVarBytes

/-- The read loop of a map, to the separator, the empty key; every turn uses up a byte. -/
def readFields {σ : Type} (missing : String) (readField : Bytes → σ → ByteReader σ) :
    Nat → σ → ByteReader σ
  | 0, _ => throw missing
  | fuel + 1, state => do
    let key ← readKey missing
    if key.isEmpty then pure state
    else do
      let state ← readField key state
      readFields missing readField fuel state

def readMap {σ : Type} (missing : String) (readField : Bytes → σ → ByteReader σ) (state : σ) :
    ByteReader σ := do
  let rest ← get
  readFields missing readField rest.length state

/-- `UnserializeFromVector`: a value with its size before it. -/
def readFromVector {α : Type} (r : ByteReader α) : ByteReader α := do
  let expectedSize ← readCompactSize
  let before ← get
  let value ← r
  let after ← get
  if after.length + expectedSize ≠ before.length then throw "Size of value was not the stated size"
  else pure value

/-- A key of one byte that may occur once: the keys seen so far, with this one. -/
def readOnceKey (keyLookup : List Bytes) (key : Bytes) (duplicate long : String) :
    ByteReader (List Bytes) :=
  if key ∈ keyLookup then throw duplicate
  else if key.length ≠ 1 then throw long
  else pure (key :: keyLookup)

def readUnknown (key : Bytes) (unknown : SortedMap Bytes Bytes) :
    ByteReader (SortedMap Bytes Bytes) :=
  if (unknown.find key).isSome then
    throw "Duplicate Key, key for unknown value already provided"
  else do
    let value ← readVarBytes
    pure (unknown.emplace key value)

/-! ### Entries of an input -/

section Readers

variable (E : NodeEnv) (crypto : ScriptCrypto)

def readPubKey (key : Bytes) (wrongSize : String) : ByteReader CPubKey :=
  if key.length ≠ 66 ∧ key.length ≠ 34 then throw wrongSize
  else if !E.secp.isFullyValid key.tail then throw "Invalid pubkey"
  else pure key.tail

def readHDKeypath (key : Bytes) (hdKeypaths : SortedMap CPubKey KeyOriginInfo) :
    ByteReader (SortedMap CPubKey KeyOriginInfo) := do
  let pubkey ← readPubKey E key
    "Size of key was not the expected size for the type BIP32 keypath"
  if (hdKeypaths.find pubkey).isSome then
    throw "Duplicate Key, pubkey derivation path already provided"
  else do
    let valueLen ← readCompactSize
    if valueLen % 4 ≠ 0 ∨ valueLen = 0 then throw "Invalid length for HD key path"
    else do
      let fingerprint ← readBlock endOfFile 4
      let path ← readList readUInt32 (valueLen / 4 - 1)
      pure (hdKeypaths.emplace pubkey ⟨fingerprint, path⟩)

def readPartialSig (key : Bytes) (partialSigs : SortedMap CKeyID SigPair) :
    ByteReader (SortedMap CKeyID SigPair) := do
  let pubkey ← readPubKey E key
    "Size of key was not the expected size for the type partial signature pubkey"
  if (partialSigs.find (crypto.hash160 pubkey)).isSome then
    throw "Duplicate Key, input partial signature for pubkey already provided"
  else do
    let sig ← readVarBytes
    pure (partialSigs.emplace (crypto.hash160 pubkey) (pubkey, sig))

def readInt32 : ByteReader Int := do
  let value ← readUInt32
  pure value.toInt32.toInt

def CTxOut.given (out : CTxOut) : Option CTxOut := if out.isNull then none else some out

/-- One entry of an input, by the type in the first byte of its key. -/
def readInputField (key : Bytes) (state : List Bytes × PSBTInput) :
    ByteReader (List Bytes × PSBTInput) :=
  match (key.headD 0).toNat, state with
  | 0x00, (keyLookup, input) => do
    let keyLookup ← readOnceKey keyLookup key
      "Duplicate Key, input non-witness utxo already provided"
      "Non-witness utxo key is more than one byte type"
    let tx ← readFromVector (unserializeTransaction true)
    pure (keyLookup, { input with nonWitnessUtxo := some tx })
  | 0x01, (keyLookup, input) => do
    let keyLookup ← readOnceKey keyLookup key
      "Duplicate Key, input witness utxo already provided"
      "Witness utxo key is more than one byte type"
    let out ← readFromVector readOutput
    pure (keyLookup, { input with witnessUtxo := out.given })
  | 0x02, (keyLookup, input) => do
    let partialSigs ← readPartialSig E crypto key input.partialSigs
    pure (keyLookup, { input with partialSigs })
  | 0x03, (keyLookup, input) => do
    let keyLookup ← readOnceKey keyLookup key
      "Duplicate Key, input sighash type already provided"
      "Sighash type key is more than one byte type"
    let sighashType ← readFromVector readInt32
    pure (keyLookup, { input with sighashType })
  | 0x04, (keyLookup, input) => do
    let keyLookup ← readOnceKey keyLookup key
      "Duplicate Key, input redeemScript already provided"
      "Input redeemScript key is more than one byte type"
    let redeemScript ← readVarBytes
    pure (keyLookup, { input with redeemScript })
  | 0x05, (keyLookup, input) => do
    let keyLookup ← readOnceKey keyLookup key
      "Duplicate Key, input witnessScript already provided"
      "Input witnessScript key is more than one byte type"
    let witnessScript ← readVarBytes
    pure (keyLookup, { input with witnessScript })
  | 0x06, (keyLookup, input) => do
    let hdKeypaths ← readHDKeypath E key input.hdKeypaths
    pure (keyLookup, { input with hdKeypaths })
  | 0x07, (keyLookup, input) => do
    let keyLookup ← readOnceKey keyLookup key
      "Duplicate Key, input final scriptSig already provided"
      "Final scriptSig key is more than one byte type"
    let finalScriptSig ← readVarBytes
    pure (keyLookup, { input with finalScriptSig })
  | 0x08, (keyLookup, input) => do
    let keyLookup ← readOnceKey keyLookup key
      "Duplicate Key, input final scriptWitness already provided"
      "Final scriptWitness key is more than one byte type"
    let finalScriptWitness ← readFromVector (readVector readVarBytes)
    pure (keyLookup, { input with finalScriptWitness })
  | _, (keyLookup, input) => do
    let unknown ← readUnknown key input.unknown
    pure (keyLookup, { input with unknown })

def readPSBTInput : ByteReader PSBTInput := do
  let (_, input) ← readMap "Separator is missing at the end of an input map"
    (readInputField E crypto) ([], {})
  pure input

/-! ### Outputs, globals and the whole PSBT -/

def readOutputField (key : Bytes) (state : List Bytes × PSBTOutput) :
    ByteReader (List Bytes × PSBTOutput) :=
  match (key.headD 0).toNat, state with
  | 0x00, (keyLookup, output) => do
    let keyLookup ← readOnceKey keyLookup key
      "Duplicate Key, output redeemScript already provided"
      "Output redeemScript key is more than one byte type"
    let redeemScript ← readVarBytes
    pure (keyLookup, { output with redeemScript })
  | 0x01, (keyLookup, output) => do
    let keyLookup ← readOnceKey keyLookup key
      "Duplicate Key, output witnessScript already provided"
      "Output witnessScript key is more than one byte type"
    let witnessScript ← readVarBytes
    pure (keyLookup, { output with witnessScript })
  | 0x02, (keyLookup, output) => do
    let hdKeypaths ← readHDKeypath E key output.hdKeypaths
    pure (keyLookup, { output with hdKeypaths })
  | _, (keyLookup, output) => do
    let unknown ← readUnknown key output.unknown
    pure (keyLookup, { output with unknown })

def readPSBTOutput : ByteReader PSBTOutput := do
  let (_, output) ← readMap "Separator is missing at the end of an output map"
    (readOutputField E) ([], {})
  pure output

/-- The keys seen, the unsigned transaction, the unknown entries. -/
structure PSBTGlobals where
  keyLookup : List Bytes := []
  tx : Option CTransaction := none
  unknown : SortedMap Bytes Bytes := .empty

def readGlobalField (key : Bytes) (globals : PSBTGlobals) : ByteReader PSBTGlobals :=
  if key.headD 0 = 0x00 then do
    let keyLookup ← readOnceKey globals.keyLookup key
      "Duplicate Key, unsigned tx already provided"
      "Global unsigned tx key is more than one byte type"
    let tx ← readFromVector (unserializeTransaction false)
    if tx.vin.any fun txin => !txin.scriptSig.isEmpty || !txin.scriptWitness.isEmpty then
      throw "Unsigned tx does not have empty scriptSigs and scriptWitnesses."
    else pure { globals with keyLookup, tx := some tx }
  else do
    let unknown ← readUnknown key globals.unknown
    pure { globals with unknown }

def checkUtxoHash (input : PSBTInput) (txin : CTxIn) : ByteReader PUnit :=
  if input.nonWitnessUtxo.any fun prev => E.txid prev != txin.prevout.hash then
    throw "Non-witness UTXO does not match outpoint hash"
  else pure ⟨⟩

/-- The loop over the inputs; it ends early when the stream does. -/
def readPSBTInputs : List CTxIn → ByteReader (List PSBTInput)
  | [] => pure []
  | txin :: vin => do
    let stream ← get
    if stream.isEmpty then pure []
    else do
      let input ← readPSBTInput E crypto
      checkUtxoHash E input txin
      let inputs ← readPSBTInputs vin
      pure (input :: inputs)

def readPSBTOutputs : Nat → ByteReader (List PSBTOutput)
  | 0 => pure []
  | n + 1 => do
    let stream ← get
    if stream.isEmpty then pure []
    else do
      let output ← readPSBTOutput E
      let outputs ← readPSBTOutputs n
      pure (output :: outputs)

/-- The number of records and the sanity check at the end. -/
def finishPSBT (tx : CTransaction) (unknown : SortedMap Bytes Bytes) (inputs : List PSBTInput) :
    ByteReader PartiallySignedTransaction :=
  if inputsSize : inputs.length = tx.vin.length then do
    let outputs ← readPSBTOutputs E tx.vout.length
    if outputsSize : outputs.length = tx.vout.length then
      let psbt : PartiallySignedTransaction :=
        { tx, inputs, outputs, unknown, inputsSize, outputsSize }
      if psbt.isSane then pure psbt else throw "PSBT is not sane."
    else throw "Outputs provided does not match the number of outputs in transaction."
  else throw "Inputs provided does not match the number of inputs in transaction."

def PSBT_MAGIC_BYTES : Bytes := [0x70, 0x73, 0x62, 0x74, 0xff]

def readPSBT : ByteReader PartiallySignedTransaction := do
  let magic ← readBlock endOfFile 5
  if magic ≠ PSBT_MAGIC_BYTES then throw "Invalid PSBT magic bytes"
  else do
    let globals ← readMap "Separator is missing at the end of the global map" readGlobalField {}
    match globals.tx with
    | none => throw "No unsigned transcation was provided"
    | some tx => do
      let inputs ← readPSBTInputs E crypto tx.vin
      finishPSBT E tx globals.unknown inputs

/-- `DecodeRawPSBT`: the PSBT, or the text of the error. -/
def decodeRawPSBT (data : Bytes) : Except String PartiallySignedTransaction :=
  match (readPSBT E crypto).run data with
  | .error what => .error what
  | .ok (psbt, rest) => if rest.isEmpty then .ok psbt else .error "extra data after PSBT"

end Readers

/-! ### What is decoded -/

variable (input : PSBTInput)

/-- The previous transaction is as large as a stream can be. -/
def PSBTInput.Bounded : Prop :=
  ∀ prev, input.nonWitnessUtxo = some prev → prev.vout.length ≤ MAX_SIZE

theorem gives_varBytes : Gives readVarBytes fun _ => True := yields_varBytes.gives

theorem gives_vector {α : Type} {r : ByteReader α} (h : Gives r fun _ => True) :
    Gives (readVector r) fun as => as.length ≤ MAX_SIZE := by
  refine gives_bind (yields_compactSize.mono fun _ _ h => h.2) fun nSize hsize => ?_
  exact (gives_list h nSize).mono fun as _ has => le_of_eq_of_le has.1 hsize

theorem gives_txBody (fAllowWitness : Bool) :
    Gives (readTxBody fAllowWitness) fun body => body.2.2.length ≤ MAX_SIZE := by
  have hin := gives_vector yields_txIn.gives
  have hout := gives_vector yields_output.gives
  refine gives_bind hin fun vin _ => gives_ite (fun _ => ?_) fun _ => ?_
  · refine gives_bind (yields_one endOfFile).gives fun flags _ => gives_ite (fun _ => ?_) fun _ => ?_
    · exact gives_bind hin fun _ _ => gives_bind hout fun _ hvout => gives_pure hvout
    · exact gives_pure (Nat.zero_le _)
  · exact gives_bind hout fun _ hvout => gives_pure hvout

theorem gives_witnesses : ∀ vin : List CTxIn, Gives (readWitnesses vin) fun _ => True
  | [] => gives_pure trivial
  | _ :: vin => gives_bind (gives_vector gives_varBytes) fun _ _ =>
      gives_bind (gives_witnesses vin) fun _ _ => gives_pure trivial

theorem gives_transaction (fAllowWitness : Bool) :
    Gives (unserializeTransaction fAllowWitness) fun tx => tx.vout.length ≤ MAX_SIZE := by
  refine gives_bind yields_uint32.gives fun nVersion _ => ?_
  refine gives_bind (gives_txBody fAllowWitness) fun body hbody => ?_
  have hwitness : Gives (readTxWitness fAllowWitness body.1 body.2.1) fun _ => True := by
    refine gives_ite (fun _ => gives_bind (gives_witnesses _) fun _ _ => ?_) fun _ => ?_
    · exact gives_ite (fun _ => gives_pure trivial) fun _ => gives_throw _ _
    · exact gives_pure trivial
  refine gives_bind hwitness fun witness _ => gives_ite (fun _ => gives_throw _ _) fun _ => ?_
  exact gives_bind yields_uint32.gives fun _ _ => gives_pure hbody

theorem gives_fromVector {α : Type} {r : ByteReader α} {P : α → Prop} (h : Gives r P) :
    Gives (readFromVector r) P := by
  refine gives_bind yields_compactSize.gives fun _ _ => gives_bind gives_get fun _ _ => ?_
  refine gives_bind h fun value hvalue => gives_bind gives_get fun _ _ => ?_
  exact gives_ite (fun _ => gives_throw _ _) fun _ => gives_pure hvalue

section Fields

variable {σ : Type} {missing : String} {readField : Bytes → σ → ByteReader σ}

theorem yields_key : Yields (readKey missing) fun _ used => used ≠ [] := by
  refine yields_bind gives_get fun rest used _ => ?_
  split
  · exact yields_throw _ _
  · apply yields_varBytes.mono
    rintro bytes used' rfl
    have hsize : 1 ≤ (serializeBytes bytes).length := by
      rw [serializeBytes, length_append, writeCompactSize_length]
      exact Nat.le_add_right_of_le (one_le_sizeOfCompactSize _)
    intro hnil
    have := append_eq_nil_iff.mp hnil
    simp [this.2] at hsize

theorem gives_fields {P : σ → Prop} (hfield : ∀ key state, P state → Gives (readField key state) P) :
    ∀ (fuel : Nat) {state : σ}, P state → Gives (readFields missing readField fuel state) P
  | 0, _, _ => gives_throw _ _
  | fuel + 1, state, h => by
    refine gives_bind yields_key.gives fun key _ => gives_ite (fun _ => gives_pure h) fun _ => ?_
    exact gives_bind (hfield key state h) fun _ hnext => gives_fields hfield fuel hnext

theorem gives_map {P : σ → Prop} (hfield : ∀ key state, P state → Gives (readField key state) P)
    {state : σ} (h : P state) : Gives (readMap missing readField state) P :=
  gives_bind gives_get fun rest _ => gives_fields hfield rest.length h

end Fields

/-! ### Invariants of the entries -/

section Entries

variable (E : NodeEnv) (crypto : ScriptCrypto)

theorem gives_onceKey {α : Type} {keyLookup : List Bytes} {key : Bytes} {duplicate long : String}
    {f : List Bytes → ByteReader α} {P : α → Prop} (h : ∀ keys, Gives (f keys) P) :
    Gives (readOnceKey keyLookup key duplicate long >>= f) P :=
  gives_bind (Q := fun _ => True) (gives_ite (fun _ => gives_throw _ _) fun _ =>
    gives_ite (fun _ => gives_throw _ _) fun _ => gives_pure trivial) fun keys _ => h keys

variable (key : Bytes)

theorem gives_unknown (unknown : SortedMap Bytes Bytes) :
    Gives (readUnknown key unknown) fun _ => True :=
  gives_ite (fun _ => gives_throw _ _) fun _ =>
    gives_bind gives_varBytes fun _ _ => gives_pure trivial

theorem gives_pubKey (wrongSize : String) : Gives (readPubKey E key wrongSize) fun _ => True :=
  gives_ite (fun _ => gives_throw _ _) fun _ =>
    gives_ite (fun _ => gives_throw _ _) fun _ => gives_pure trivial

theorem gives_hdKeypath (hdKeypaths : SortedMap CPubKey KeyOriginInfo) :
    Gives (readHDKeypath E key hdKeypaths) fun _ => True := by
  refine gives_bind (gives_pubKey E key _) fun pubkey _ => gives_ite (fun _ => gives_throw _ _) ?_
  intro _
  refine gives_bind yields_compactSize.gives fun valueLen _ => ?_
  refine gives_ite (fun _ => gives_throw _ _) fun _ => ?_
  refine gives_bind (yields_block endOfFile 4).gives fun _ _ => ?_
  exact gives_bind (gives_list yields_uint32.gives _) fun _ _ => gives_pure trivial

theorem gives_partialSig (partialSigs : SortedMap CKeyID SigPair) :
    Gives (readPartialSig E crypto key partialSigs) fun _ => True := by
  refine gives_bind (gives_pubKey E key _) fun pubkey _ => gives_ite (fun _ => gives_throw _ _) ?_
  exact fun _ => gives_bind gives_varBytes fun _ _ => gives_pure trivial

theorem gives_int32 : Gives readInt32 fun _ => True :=
  gives_bind yields_uint32.gives fun _ _ => gives_pure trivial

theorem gives_inputField (state : List Bytes × PSBTInput) (h : state.2.Bounded) :
    Gives (readInputField E crypto key state) fun next => next.2.Bounded := by
  unfold readInputField
  split
  · -- the only entry that sets the previous transaction
    refine gives_onceKey fun _ => ?_
    refine gives_bind (gives_fromVector (gives_transaction true)) fun tx htx => gives_pure ?_
    intro prev hprev
    cases hprev
    exact htx
  · refine gives_onceKey fun _ => ?_
    exact gives_bind (gives_fromVector yields_output.gives) fun _ _ => gives_pure h
  · exact gives_bind (gives_partialSig E crypto _ _) fun _ _ => gives_pure h
  · refine gives_onceKey fun _ => ?_
    exact gives_bind (gives_fromVector gives_int32) fun _ _ => gives_pure h
  · refine gives_onceKey fun _ => ?_
    exact gives_bind gives_varBytes fun _ _ => gives_pure h
  · refine gives_onceKey fun _ => ?_
    exact gives_bind gives_varBytes fun _ _ => gives_pure h
  · exact gives_bind (gives_hdKeypath E _ _) fun _ _ => gives_pure h
  · refine gives_onceKey fun _ => ?_
    exact gives_bind gives_varBytes fun _ _ => gives_pure h
  · refine gives_onceKey fun _ => ?_
    exact gives_bind (gives_fromVector (gives_vector gives_varBytes)) fun _ _ => gives_pure h
  · exact gives_bind (gives_unknown _ _) fun _ _ => gives_pure h

theorem gives_psbtInput : Gives (readPSBTInput E crypto) PSBTInput.Bounded := by
  have hempty : ({} : PSBTInput).Bounded := by
    intro prev hprev
    cases hprev
  exact gives_bind (gives_map (gives_inputField E crypto) hempty) fun _ h => gives_pure h

theorem gives_outputField (state : List Bytes × PSBTOutput) :
    Gives (readOutputField E key state) fun _ => True := by
  unfold readOutputField
  split
  · refine gives_onceKey fun _ => ?_
    exact gives_bind gives_varBytes fun _ _ => gives_pure trivial
  · refine gives_onceKey fun _ => ?_
    exact gives_bind gives_varBytes fun _ _ => gives_pure trivial
  · exact gives_bind (gives_hdKeypath E _ _) fun _ _ => gives_pure trivial
  · exact gives_bind (gives_unknown _ _) fun _ _ => gives_pure trivial

theorem gives_psbtOutputs : ∀ n : Nat, Gives (readPSBTOutputs E n) fun _ => True
  | 0 => gives_pure trivial
  | n + 1 => by
    have houtput : Gives (readPSBTOutput E) fun _ => True :=
      gives_bind (gives_map (fun key state _ => gives_outputField E key state) trivial)
        fun _ _ => gives_pure trivial
    refine gives_bind gives_get fun _ _ => gives_ite (fun _ => gives_pure trivial) fun _ => ?_
    exact gives_bind houtput fun _ _ => gives_bind (gives_psbtOutputs n) fun _ _ => gives_pure trivial

theorem gives_globalField (globals : PSBTGlobals) :
    Gives (readGlobalField key globals) fun _ => True := by
  refine gives_ite (fun _ => ?_) fun _ => ?_
  · refine gives_onceKey fun _ => ?_
    refine gives_bind (gives_fromVector (gives_transaction false)) fun _ _ => ?_
    exact gives_ite (fun _ => gives_throw _ _) fun _ => gives_pure trivial
  · exact gives_bind (gives_unknown _ _) fun _ _ => gives_pure trivial

end Entries

/-- Each previous transaction satisfies `P` with its input. -/
def UtxosSatisfy (P : CTxIn → CTransaction → Prop) (vin : List CTxIn) (inputs : List PSBTInput) :
    Prop :=
  ∀ (i : Nat) input txin prev, inputs[i]? = some input → vin[i]? = some txin →
    input.nonWitnessUtxo = some prev → P txin prev

/-- It has the hash of the outpoint, and it is not larger than a stream. -/
def UtxosMatch (E : NodeEnv) : List CTxIn → List PSBTInput → Prop :=
  UtxosSatisfy fun txin prev => E.txid prev = txin.prevout.hash ∧ prev.vout.length ≤ MAX_SIZE

structure PartiallySignedTransaction.Decoded (E : NodeEnv) (psbt : PartiallySignedTransaction) :
    Prop where
  sane : psbt.isSane = true
  utxos : UtxosMatch E psbt.tx.vin psbt.inputs

section Decoded

variable (E : NodeEnv) (crypto : ScriptCrypto)

theorem gives_psbtInputs : ∀ vin : List CTxIn,
    Gives (readPSBTInputs E crypto vin) (UtxosMatch E vin)
  | [] => gives_pure fun _ _ _ _ hinput => by simp at hinput
  | txin :: vin => by
    refine gives_bind gives_get fun _ _ => gives_ite (fun _ => gives_pure ?_) fun _ => ?_
    · intro i input _ _ hinput
      simp at hinput
    · refine gives_bind (gives_psbtInput E crypto) fun input hbounded => ?_
      have hcheck : Gives (checkUtxoHash E input txin) fun _ =>
          ∀ prev, input.nonWitnessUtxo = some prev → E.txid prev = txin.prevout.hash := by
        refine gives_ite (fun _ => gives_throw _ _) fun hany => gives_pure ?_
        intro prev hprev
        simpa [hprev] using hany
      refine gives_bind hcheck fun _ hhash => ?_
      refine gives_bind (gives_psbtInputs vin) fun inputs hrest => gives_pure ?_
      intro i input' txin' prev hinput htxin hprev
      cases i with
      | zero =>
        cases hinput
        cases htxin
        exact ⟨hhash prev hprev, hbounded prev hprev⟩
      | succ i => exact hrest i input' txin' prev hinput htxin hprev

theorem gives_finishPSBT {tx : CTransaction} {unknown : SortedMap Bytes Bytes}
    {inputs : List PSBTInput} {P : List PSBTInput → Prop} (h : P inputs) :
    Gives (finishPSBT E tx unknown inputs) fun psbt =>
      psbt.isSane = true ∧ psbt.tx = tx ∧ P psbt.inputs := by
  unfold finishPSBT
  split
  · refine gives_bind (gives_psbtOutputs E _) fun outputs _ => ?_
    split
    · exact gives_ite (fun hsane => gives_pure ⟨hsane, rfl, h⟩) fun _ => gives_throw _ _
    · exact gives_throw _ _
  · exact gives_throw _ _

theorem gives_psbt : Gives (readPSBT E crypto) fun psbt => psbt.Decoded E := by
  refine gives_bind (yields_block endOfFile 5).gives fun magic _ => ?_
  refine gives_ite (fun _ => gives_throw _ _) fun _ => ?_
  refine gives_bind (gives_map (fun key globals _ => gives_globalField key globals) trivial)
    fun globals _ => ?_
  cases globals.tx with
  | none => exact gives_throw _ _
  | some tx =>
    refine gives_bind (gives_psbtInputs E crypto tx.vin) fun inputs hinputs => ?_
    apply (gives_finishPSBT E hinputs).mono
    rintro psbt _ ⟨hsane, rfl, hprev⟩
    exact ⟨hsane, hprev⟩

theorem decoded_of_decodeRawPSBT {data : Bytes} {psbt : PartiallySignedTransaction}
    (h : decodeRawPSBT E crypto data = .ok psbt) : psbt.Decoded E := by
  unfold decodeRawPSBT at h
  cases hread : (readPSBT E crypto).run data with
  | error what => simp [hread] at h
  | ok result =>
    obtain ⟨psbt', rest⟩ := result
    obtain ⟨-, -, hdecoded⟩ := gives_psbt E crypto data psbt' rest hread
    simp only [hread] at h
    split at h
    · cases h
      exact hdecoded
    · cases h

end Decoded

/-! ### Reading previous outputs -/

def prevOutput (prev : CTransaction) (n : Nat) : Run CTxOut :=
  match prev.vout[n]? with
  | some out => pure out
  | none => .error (.undefined "non_witness_utxo->vout[n]")

/-- A `uint32_t` that goes through an `int` before it is an index. -/
def throughInt (n : Nat) : Nat := if n < 2 ^ 31 then n else n + 2 ^ 64 - 2 ^ 32

/-- `PartiallySignedTransaction::GetInputUTXO`; `none` when it returns false. -/
def PartiallySignedTransaction.getInputUTXO (psbt : PartiallySignedTransaction)
    (inputIndex : Nat) : Run (Option CTxOut) :=
  match psbt.inputs[inputIndex]?, psbt.tx.vin[inputIndex]? with
  | some input, some txin =>
    match input.nonWitnessUtxo with
    | some prev => some <$> prevOutput prev (throughInt txin.prevout.n)
    | none => pure input.witnessUtxo
  | _, _ => .error (.undefined "inputs[input_index]")

structure SignatureData where
  complete : Bool := false
  witness : Bool := false
  scriptSig : CScript := []
  redeemScript : CScript := []
  witnessScript : CScript := []
  scriptWitness : List Bytes := []
  signatures : SortedMap CKeyID SigPair := .empty
  miscPubkeys : SortedMap CKeyID (CPubKey × KeyOriginInfo) := .empty
  missingPubkeys : List CKeyID := []
  missingSigs : List CKeyID := []
  missingRedeemScript : Bytes := []
  missingWitnessScript : UInt256 := 0
  deriving DecidableEq

def psbtInputSigned : Bool :=
  !input.finalScriptSig.isEmpty || !input.finalScriptWitness.isEmpty

def PSBTInput.fillSignatureData (crypto : ScriptCrypto) (input : PSBTInput) : SignatureData :=
  if psbtInputSigned input then
    { complete := true
      scriptSig := input.finalScriptSig
      scriptWitness := input.finalScriptWitness }
  else
    { signatures := input.partialSigs
      redeemScript := input.redeemScript
      witnessScript := input.witnessScript
      miscPubkeys := input.hdKeypaths.entries.foldl
        (fun misc keyPair => misc.emplace (crypto.hash160 keyPair.1) keyPair) .empty }

def PSBTInput.fromSignatureData (sigdata : SignatureData) : PSBTInput :=
  if sigdata.complete then
    { input with
      partialSigs := .empty
      hdKeypaths := .empty
      redeemScript := []
      witnessScript := []
      finalScriptSig :=
        if sigdata.scriptSig.isEmpty then input.finalScriptSig else sigdata.scriptSig
      finalScriptWitness :=
        if sigdata.scriptWitness.isEmpty then input.finalScriptWitness else sigdata.scriptWitness }
  else
    { input with
      partialSigs := input.partialSigs.insertAll sigdata.signatures
      redeemScript := fillEmpty input.redeemScript sigdata.redeemScript
      witnessScript := fillEmpty input.witnessScript sigdata.witnessScript
      hdKeypaths := sigdata.miscPubkeys.entries.foldl
        (fun paths entry => paths.emplace entry.2.1 entry.2.2) input.hdKeypaths }

inductive SignatureCreator where
  | dummy
  | mutableTransaction (txTo : CTransaction) (nIn : Nat) (amount : Int) (nHashType : Int)

/-- A signing provider, as what `ProduceSignature` does with it. -/
abbrev SigningProvider := SignatureCreator → CScript → SignatureData → Bool × SignatureData

def signatureCreator (tx : CTransaction) (index : Nat) (amount sighash : Int) (useDummy : Bool) :
    SignatureCreator :=
  if useDummy then .dummy else .mutableTransaction tx index amount sighash

def PartiallySignedTransaction.setInput (psbt : PartiallySignedTransaction) (index : Nat)
    (input : PSBTInput) : PartiallySignedTransaction :=
  { psbt with
    inputs := psbt.inputs.set index input
    inputsSize := (length_set ..).trans psbt.inputsSize }

/-- What `SignPSBTInput` returns, and what it leaves in its arguments. -/
structure SignResult where
  sigComplete : Bool
  psbt : PartiallySignedTransaction
  outSigdata : Option SignatureData := none
  deriving DecidableEq

/-- The output to sign for, and whether a witness signature is required. -/
def signedOutput (E : NodeEnv) (input : PSBTInput) (txin : CTxIn) : Run (Option (CTxOut × Bool)) :=
  match input.nonWitnessUtxo, input.witnessUtxo with
  | some prev, _ =>
    if E.txid prev ≠ txin.prevout.hash then pure none
    else do
      let utxo ← prevOutput prev txin.prevout.n
      pure (some (utxo, false))
  | none, some utxo => pure (some (utxo, true))
  | none, none => pure none

def recordSignature (utxo : CTxOut) (sigdata : SignatureData) : PSBTInput :=
  let input := input.fromSignatureData sigdata
  if sigdata.witness then { input with witnessUtxo := utxo.given, nonWitnessUtxo := none }
  else input

/-- The second half of `SignPSBTInput`, once the output is known. -/
def signWith (crypto : ScriptCrypto) (provider : SigningProvider)
    (psbt : PartiallySignedTransaction) (index : Nat) (sighash : Int) (useDummy : Bool)
    (input : PSBTInput) (utxo : CTxOut) (requireWitnessSig : Bool) : SignResult :=
  let (sigComplete, sigdata) :=
    provider (signatureCreator psbt.tx index utxo.nValue sighash useDummy) utxo.scriptPubKey
      { input.fillSignatureData crypto with witness := false }
  if requireWitnessSig && !sigdata.witness then { sigComplete := false, psbt }
  else
    { sigComplete
      psbt := psbt.setInput index (recordSignature input utxo sigdata)
      outSigdata := some {
        missingPubkeys := sigdata.missingPubkeys
        missingSigs := sigdata.missingSigs
        missingRedeemScript := sigdata.missingRedeemScript
        missingWitnessScript := sigdata.missingWitnessScript } }

def signPSBTInput (E : NodeEnv) (crypto : ScriptCrypto) (provider : SigningProvider)
    (psbt : PartiallySignedTransaction) (index : Nat) (sighash : Int) (useDummy : Bool) :
    Run SignResult :=
  match psbt.inputs[index]?, psbt.tx.vin[index]? with
  | some input, some txin =>
    if psbtInputSigned input then pure { sigComplete := true, psbt }
    else if !input.isSane then pure { sigComplete := false, psbt }
    else do
      match ← signedOutput E input txin with
      | none => pure { sigComplete := false, psbt }
      | some (utxo, requireWitnessSig) =>
        pure (signWith crypto provider psbt index sighash useDummy input utxo requireWitnessSig)
  | _, _ => .error (.exception "psbt.inputs.at(index)")

def SIGHASH_ALL : Int := 1

def finalizeLoop (E : NodeEnv) (crypto : ScriptCrypto) (provider : SigningProvider) :
    List Nat → Bool → PartiallySignedTransaction → Run (Bool × PartiallySignedTransaction)
  | [], complete, psbt => pure (complete, psbt)
  | i :: rest, complete, psbt => do
    let result ← signPSBTInput E crypto provider psbt i SIGHASH_ALL false
    finalizeLoop E crypto provider rest (complete && result.sigComplete) result.psbt

/-- `provider` stands for `DUMMY_SIGNING_PROVIDER`. -/
def finalizePSBT (E : NodeEnv) (crypto : ScriptCrypto) (provider : SigningProvider)
    (psbt : PartiallySignedTransaction) : Run (Bool × PartiallySignedTransaction) :=
  finalizeLoop E crypto provider (List.range psbt.tx.vin.length) true psbt

/-! ### When previous outputs are read in range -/

def InRange {α : Type} (x : Run α) : Prop := ∀ access, x ≠ .error (.undefined access)

/-- None of the readers of a PSBT accesses an output that does not exist. -/
structure PartiallySignedTransaction.ReadsInRange (E : NodeEnv) (crypto : ScriptCrypto)
    (psbt : PartiallySignedTransaction) : Prop where
  getInputUTXO : ∀ index < psbt.inputs.length, InRange (psbt.getInputUTXO index)
  signPSBTInput : ∀ provider sighash useDummy, ∀ index < psbt.inputs.length,
    InRange (signPSBTInput E crypto provider psbt index sighash useDummy)
  finalizePSBT : ∀ provider, InRange (finalizePSBT E crypto provider psbt)

/-- Every outpoint names an output of its previous transaction. -/
def PartiallySignedTransaction.PrevoutsExist (psbt : PartiallySignedTransaction) : Prop :=
  UtxosSatisfy (fun txin prev => txin.prevout.n < prev.vout.length) psbt.tx.vin psbt.inputs

theorem inRange_ok {α : Type} (a : α) : InRange (.ok a : Run α) := fun _ h => by cases h

variable {prev : CTransaction} {n : Nat}

theorem prevOutput_eq_ok (h : n < prev.vout.length) : ∃ out, prevOutput prev n = .ok out := by
  rw [prevOutput, getElem?_eq_getElem h]
  exact ⟨_, rfl⟩

theorem prevOutput_of_le (h : prev.vout.length ≤ n) :
    prevOutput prev n = .error (.undefined "non_witness_utxo->vout[n]") := by
  rw [prevOutput, getElem?_eq_none h]

theorem throughInt_lt {size : Nat} (h : size ≤ MAX_SIZE) : throughInt n < size ↔ n < size := by
  have hmax : MAX_SIZE = 33554432 := rfl
  unfold throughInt
  split <;> omega

namespace PartiallySignedTransaction

variable {E : NodeEnv} {crypto : ScriptCrypto} {psbt : PartiallySignedTransaction} {i : Nat}

theorem exists_txin (h : i < psbt.inputs.length) :
    ∃ input txin, psbt.inputs[i]? = some input ∧ psbt.tx.vin[i]? = some txin := by
  have hvin : i < psbt.tx.vin.length := psbt.inputsSize ▸ h
  exact ⟨_, _, getElem?_eq_getElem h, getElem?_eq_getElem hvin⟩

theorem PrevoutsExist.getInputUTXO (h : psbt.PrevoutsExist)
    (hsize : UtxosMatch E psbt.tx.vin psbt.inputs) (hi : i < psbt.inputs.length) :
    InRange (psbt.getInputUTXO i) := by
  obtain ⟨input, txin, hinput, htxin⟩ := exists_txin hi
  unfold PartiallySignedTransaction.getInputUTXO
  rw [hinput, htxin]
  cases hprev : input.nonWitnessUtxo with
  | none =>
    simp only [hprev]
    exact inRange_ok _
  | some prev =>
    have hlt := h i input txin prev hinput htxin hprev
    have hmax := (hsize i input txin prev hinput htxin hprev).2
    obtain ⟨out, hout⟩ := prevOutput_eq_ok ((throughInt_lt hmax).mpr hlt)
    simp only [hprev, hout]
    exact inRange_ok _

theorem PrevoutsExist.signedOutput (h : psbt.PrevoutsExist) {i : Nat} {input : PSBTInput}
    {txin : CTxIn} (hinput : psbt.inputs[i]? = some input) (htxin : psbt.tx.vin[i]? = some txin) :
    ∃ utxo, signedOutput E input txin = .ok utxo := by
  unfold VBitcoin.signedOutput
  split
  · rename_i prev hprev
    split
    · exact ⟨_, rfl⟩
    · obtain ⟨out, hout⟩ := prevOutput_eq_ok (h i input txin prev hinput htxin hprev)
      rw [hout]
      exact ⟨_, rfl⟩
  · exact ⟨_, rfl⟩
  · exact ⟨_, rfl⟩

theorem recordSignature_nonWitnessUtxo {input : PSBTInput} {utxo : CTxOut}
    {sigdata : SignatureData} {prev : CTransaction}
    (h : (recordSignature input utxo sigdata).nonWitnessUtxo = some prev) :
    input.nonWitnessUtxo = some prev := by
  unfold recordSignature PSBTInput.fromSignatureData at h
  dsimp only at h
  split at h
  · cases h
  · split at h <;> exact h

theorem PrevoutsExist.setInput (h : psbt.PrevoutsExist) {input input' : PSBTInput}
    (hinput : psbt.inputs[i]? = some input)
    (hkeep : ∀ prev, input'.nonWitnessUtxo = some prev → input.nonWitnessUtxo = some prev) :
    (psbt.setInput i input').PrevoutsExist := by
  intro j other txin prev hother htxin hprev
  change (psbt.inputs.set i input')[j]? = some other at hother
  rw [getElem?_set] at hother
  split_ifs at hother with hij hlt
  · subst hij
    cases hother
    exact h i input txin prev hinput htxin (hkeep prev hprev)
  · exact h j other txin prev hother htxin hprev

theorem PrevoutsExist.signPSBTInput (h : psbt.PrevoutsExist) (provider : SigningProvider)
    (sighash : Int) (useDummy : Bool) {i : Nat} (hi : i < psbt.inputs.length) :
    ∃ result, signPSBTInput E crypto provider psbt i sighash useDummy = .ok result ∧
      result.psbt.PrevoutsExist ∧ result.psbt.inputs.length = psbt.inputs.length := by
  obtain ⟨input, txin, hinput, htxin⟩ := exists_txin hi
  obtain ⟨output, houtput⟩ := h.signedOutput (E := E) hinput htxin
  unfold VBitcoin.signPSBTInput
  simp only [hinput, htxin]
  split_ifs
  · exact ⟨_, rfl, h, rfl⟩
  · exact ⟨_, rfl, h, rfl⟩
  · rw [houtput, ok_bind]
    cases output with
    | none => exact ⟨_, rfl, h, rfl⟩
    | some found =>
      refine ⟨_, rfl, ?_⟩
      unfold signWith
      dsimp only
      split
      · exact ⟨h, rfl⟩
      · refine ⟨h.setInput hinput fun prev => recordSignature_nonWitnessUtxo, ?_⟩
        exact length_set ..

theorem PrevoutsExist.finalizeLoop (provider : SigningProvider) : ∀ (indexes : List Nat)
    (complete : Bool) {psbt : PartiallySignedTransaction}, psbt.PrevoutsExist →
    (∀ i ∈ indexes, i < psbt.inputs.length) →
      InRange (finalizeLoop E crypto provider indexes complete psbt)
  | [], _, _, _, _ => inRange_ok _
  | i :: rest, complete, psbt, h, hindexes => by
    obtain ⟨result, hresult, hkeep, hlength⟩ := @PrevoutsExist.signPSBTInput E crypto psbt h provider
      SIGHASH_ALL false i (hindexes i mem_cons_self)
    rw [VBitcoin.finalizeLoop, hresult, ok_bind]
    apply PrevoutsExist.finalizeLoop provider rest _ hkeep
    intro j hj
    rw [hlength]
    exact hindexes j (mem_cons_of_mem i hj)

theorem PrevoutsExist.readsInRange (h : psbt.PrevoutsExist)
    (hsize : UtxosMatch E psbt.tx.vin psbt.inputs) : psbt.ReadsInRange E crypto where
  getInputUTXO i hi := h.getInputUTXO hsize hi
  signPSBTInput provider sighash useDummy i hi := by
    obtain ⟨result, hresult, -⟩ := h.signPSBTInput provider sighash useDummy hi
    rw [hresult]
    exact inRange_ok result
  finalizePSBT provider := by
    apply PrevoutsExist.finalizeLoop provider _ _ h
    intro i hi
    rw [psbt.inputsSize]
    exact mem_range.mp hi

theorem ReadsInRange.prevoutsExist (h : psbt.ReadsInRange E crypto)
    (hsize : UtxosMatch E psbt.tx.vin psbt.inputs) : psbt.PrevoutsExist := by
  intro i input txin prev hinput htxin hprev
  have hi : i < psbt.inputs.length := (List.getElem?_eq_some_iff.mp hinput).1
  have hmax := (hsize i input txin prev hinput htxin hprev).2
  by_contra hge
  have hstop : psbt.getInputUTXO i = .error (.undefined "non_witness_utxo->vout[n]") := by
    unfold PartiallySignedTransaction.getInputUTXO
    rw [← throughInt_lt hmax, not_lt] at hge
    simp only [hinput, htxin, hprev, prevOutput_of_le hge]
    rfl
  exact h.getInputUTXO i hi _ hstop

end PartiallySignedTransaction

theorem PSBTInput.merge_nonWitnessUtxo {x y : PSBTInput}
    (h : (x.merge y).nonWitnessUtxo = some prev) :
    x.nonWitnessUtxo = some prev ∨ y.nonWitnessUtxo = some prev := by
  unfold PSBTInput.merge at h
  dsimp only at h
  split at h
  · cases h
  · rcases Option.or_eq_some_iff.mp h with hx | ⟨-, hy⟩
    · exact Or.inl hx
    · exact Or.inr hy

theorem mergeRecords_utxos {P : CTxIn → CTransaction → Prop} {p q : PartiallySignedTransaction}
    (htx : q.tx = p.tx) (hp : UtxosSatisfy P p.tx.vin p.inputs)
    (hq : UtxosSatisfy P q.tx.vin q.inputs) :
    UtxosSatisfy P p.tx.vin (p.mergeRecords q).inputs := by
  intro i input txin prev hinput htxin hprev
  obtain ⟨x, y, hx, hy, rfl⟩ := PartiallySignedTransaction.mergeRecords_input htx hinput
  rcases PSBTInput.merge_nonWitnessUtxo hprev with hprev | hprev
  · exact hp i x txin prev hx htxin hprev
  · exact hq i y txin prev hy (htx ▸ htxin) hprev

section Combine

variable {E : NodeEnv} {crypto : ScriptCrypto} {psbts : List PartiallySignedTransaction}

theorem mergeLoop_tx : ∀ {l : List PartiallySignedTransaction}
    {p combined : PartiallySignedTransaction},
    (∀ q ∈ l, E.txid p.tx = E.txid q.tx → p.tx = q.tx) →
    mergeLoop E p l = .ok (.ok combined) →
      (∀ q ∈ l, q.tx = p.tx) ∧ combined = l.foldl PartiallySignedTransaction.mergeRecords p
  | [], _, _, _, h => by
    cases h
    exact ⟨by simp, rfl⟩
  | q :: l, p, combined, hinj, h => by
    rw [mergeLoop, bind_eq_ok] at h
    obtain ⟨merged, hmerge, hrest⟩ := h
    unfold PartiallySignedTransaction.merge at hmerge
    split at hmerge
    · cases hmerge
      cases hrest
    · rename_i hhash
      have htx := hinj q mem_cons_self (not_not.mp hhash)
      have hmerged : merged = some (p.mergeRecords q) := by
        have := merge_of_tx_eq E htx.symm
        unfold PartiallySignedTransaction.merge at this
        rw [if_neg hhash] at this
        exact Except.ok.inj (hmerge.symm.trans this)
      subst hmerged
      have hnext := mergeLoop_tx (p := p.mergeRecords q)
        (forall_mem_cons.mp hinj).2 hrest
      refine ⟨?_, hnext.2⟩
      exact forall_mem_cons.mpr ⟨htx.symm, hnext.1⟩

theorem combined_utxos {P : CTxIn → CTransaction → Prop} {combined : PartiallySignedTransaction}
    (hinj : ∀ p ∈ psbts, ∀ q ∈ psbts, E.txid p.tx = E.txid q.tx → p.tx = q.tx)
    (hall : ∀ p ∈ psbts, UtxosSatisfy P p.tx.vin p.inputs)
    (h : combinePSBTs E psbts = .ok (.ok combined)) :
    UtxosSatisfy P combined.tx.vin combined.inputs := by
  cases psbts with
  | nil => cases h
  | cons first rest =>
    rw [combinePSBTs, bind_eq_ok] at h
    obtain ⟨merged, hmerge, hcheck⟩ := h
    cases merged with
    | error err => cases hcheck
    | ok out =>
      obtain ⟨-, hcombined⟩ := checkCombined_eq_ok.mp (Except.ok.inj hcheck)
      subst hcombined
      obtain ⟨htx, rfl⟩ := mergeLoop_tx (fun q hq => hinj first mem_cons_self q
        (mem_cons_of_mem first hq)) hmerge
      -- along the loop the receiver stays over the first transaction
      have hfold : ∀ l ⊆ rest, ∀ c, c.tx = first.tx → UtxosSatisfy P c.tx.vin c.inputs →
          UtxosSatisfy P (l.foldl PartiallySignedTransaction.mergeRecords c).tx.vin
            (l.foldl PartiallySignedTransaction.mergeRecords c).inputs := by
        intro l
        induction l with
        | nil => exact fun _ _ _ hc => hc
        | cons q l ih =>
          intro hsub c hcx hc
          obtain ⟨hq, hl⟩ := cons_subset.mp hsub
          exact ih hl (c.mergeRecords q) hcx (mergeRecords_utxos ((htx q hq).trans hcx.symm) hc
            (hall q (mem_cons_of_mem first hq)))
      exact hfold rest (List.Subset.refl rest) first rfl (hall first mem_cons_self)

/-- **Decoded PSBTs are read in range just when their outpoints exist**, and so is their
    combination; hashes of different unsigned transactions are assumed to differ. -/
theorem psbt_reads_in_range_iff
    (hdecode : ∀ p ∈ psbts, ∃ data, decodeRawPSBT E crypto data = .ok p)
    (hinj : ∀ p ∈ psbts, ∀ q ∈ psbts, E.txid p.tx = E.txid q.tx → p.tx = q.tx) :
    ((∀ p ∈ psbts, p.ReadsInRange E crypto) ∧
      ∀ combined, combinePSBTs E psbts = .ok (.ok combined) → combined.ReadsInRange E crypto) ↔
      ∀ p ∈ psbts, p.PrevoutsExist := by
  have hdecoded : ∀ p ∈ psbts, p.Decoded E := by
    intro p hp
    obtain ⟨data, hdata⟩ := hdecode p hp
    exact decoded_of_decodeRawPSBT E crypto hdata
  constructor
  · rintro ⟨hreads, -⟩ p hp
    exact (hreads p hp).prevoutsExist (hdecoded p hp).utxos
  · intro hexist
    refine ⟨fun p hp => (hexist p hp).readsInRange (hdecoded p hp).utxos, ?_⟩
    intro combined hcombined
    apply PartiallySignedTransaction.PrevoutsExist.readsInRange
    · exact combined_utxos hinj hexist hcombined
    · exact combined_utxos hinj (fun p hp => (hdecoded p hp).utxos) hcombined

end Combine

namespace Regtest

def unsignedSpendOf (n : Nat) : CTransaction :=
  { unsignedSpend with
    vin := [{ prevout := ⟨foldHash (genesisTx.serialize false), n⟩, scriptSig := [], nSequence := 0 }] }

theorem length_noOutputs : ([] : List PSBTOutput).length = ([] : List CTxOut).length := rfl

def prevPsbt (n : Nat) : PartiallySignedTransaction where
  tx := unsignedSpendOf n
  inputs := [prevInput]
  outputs := []
  inputsSize := rfl
  outputsSize := length_noOutputs

def prevPsbtBytes (n : Nat) : Bytes :=
  PSBT_MAGIC_BYTES ++ [0x01, 0x00] ++ serializeBytes ((unsignedSpendOf n).serialize false) ++
    [0x00, 0x01, 0x00] ++ serializeBytes (genesisTx.serialize true) ++ [0x00]

/-- The first output can be looked up, signed for and combined. -/
theorem prevPsbt_reads : decodeRawPSBT env scriptCrypto (prevPsbtBytes 0) = .ok (prevPsbt 0) ∧
    (∀ p ∈ [prevPsbt 0], p.ReadsInRange env scriptCrypto) ∧
    ∀ combined, combinePSBTs env [prevPsbt 0] = .ok (.ok combined) →
      combined.ReadsInRange env scriptCrypto := by
  have hdecode : decodeRawPSBT env scriptCrypto (prevPsbtBytes 0) = .ok (prevPsbt 0) := by decide +kernel
  refine ⟨hdecode, (psbt_reads_in_range_iff ?_ ?_).mpr ?_⟩
  · intro p hp
    rw [mem_singleton.mp hp]
    exact ⟨_, hdecode⟩
  · intro p hp q hq _
    rw [mem_singleton.mp hp, mem_singleton.mp hq]
  · intro p hp
    rw [mem_singleton.mp hp]
    intro i input txin prev hinput htxin hprev
    cases i with
    | zero =>
      have hn : txin.prevout.n = 0 := by rw [← (Option.some.inj htxin : _ = txin)]
      have hvout : prev.vout.length = 3 := by
        rw [← (Option.some.inj hinput : prevInput = input)] at hprev
        rw [← (Option.some.inj hprev : genesisTx = prev)]
        rfl
      rw [hn, hvout]
      decide
    | succ i => cases hinput

/-- There is no fourth output: reading it goes out of range. -/
theorem prevPsbt_out_of_range :
    decodeRawPSBT env scriptCrypto (prevPsbtBytes 3) = .ok (prevPsbt 3) ∧
    (prevPsbt 3).getInputUTXO 0 = .error (.undefined "non_witness_utxo->vout[n]") ∧
    signPSBTInput env scriptCrypto (fun _ _ sigdata => (false, sigdata)) (prevPsbt 3) 0 SIGHASH_ALL false =
      .error (.undefined "non_witness_utxo->vout[n]") ∧
    combinePSBTs env [prevPsbt 3] = .ok (.ok (prevPsbt 3)) := by
  decide +kernel

end Regtest

end VBitcoin
