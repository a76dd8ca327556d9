import VBitcoin.Unserialize

/-!
**The encoding of transactions** (`primitives/transaction.h`) — `UnserializeTransaction`
beside `SerializeTransaction`.  The extended format is recognised by an input vector that reads
as empty and a flag byte after it; a transaction with inputs never starts like that.  Above
`MAX_SIZE` a size is written but never read.
-/

namespace VBitcoin

open Codec List

/-! ### Vectors -/

def readVarBytes : ByteReader Bytes := do
  let nSize ← readCompactSize
  readBlock endOfFile nSize

def readVector {α : Type} (r : ByteReader α) : ByteReader (List α) := do
  let nSize ← readCompactSize
  readList r nSize

theorem reads_varBytes {bytes : Bytes} (h : bytes.length ≤ MAX_SIZE) :
    Reads readVarBytes (serializeBytes bytes) bytes :=
  reads_bind (reads_compactSize h) (reads_block endOfFile bytes)

theorem yields_varBytes : Yields readVarBytes fun bytes used => used = serializeBytes bytes := by
  refine yields_bind yields_compactSize fun nSize used hsize => ?_
  apply (yields_block endOfFile nSize).mono
  rintro bytes used' ⟨rfl, rfl⟩
  rw [serializeBytes, hsize.1]

section Vector

variable {α : Type} {r : ByteReader α} {write : α → Bytes}

theorem reads_vector {as : List α} (hlength : as.length ≤ MAX_SIZE)
    (h : ∀ a ∈ as, Reads r (write a) a) : Reads (readVector r) (serializeVector (as.map write)) as := by
  rw [serializeVector, length_map]
  exact reads_bind (reads_compactSize hlength) (reads_list h)

theorem yields_vector {Good : α → Prop} (h : Yields r fun a used => used = write a ∧ Good a) :
    Yields (readVector r) fun as used => used = serializeVector (as.map write) ∧ ∀ a ∈ as, Good a := by
  refine yields_bind yields_compactSize fun nSize used hsize => ?_
  apply (yields_list h nSize).mono
  rintro as used' ⟨rfl, rfl, hgood⟩
  rw [serializeVector, length_map, hsize.1]
  exact ⟨rfl, hgood⟩

end Vector

/-! ### Inputs and outputs -/

def readOutPoint : ByteReader COutPoint := do
  let hash ← readUInt256
  let n ← readNumber 4
  pure ⟨hash, n⟩

def readTxIn : ByteReader CTxIn := do
  let prevout ← readOutPoint
  let scriptSig ← readVarBytes
  let nSequence ← readUInt32
  pure { prevout, scriptSig, nSequence }

def readInt64 : ByteReader Int := do
  let value ← readNumber 8
  pure (if value < 2 ^ 63 then value else value - 2 ^ 64)

def readOutput : ByteReader CTxOut := do
  let nValue ← readInt64
  let scriptPubKey ← readVarBytes
  pure ⟨nValue, scriptPubKey⟩

theorem reads_outPoint {outpoint : COutPoint} (h : outpoint.n < 2 ^ 32) :
    Reads readOutPoint outpoint.serialize outpoint :=
  reads_bind (reads_uint256 _) (reads_bind_pure (reads_number h) (reads_pure outpoint))

theorem reads_txIn {txin : CTxIn} (hn : txin.prevout.n < 2 ^ 32)
    (hscript : txin.scriptSig.length ≤ MAX_SIZE) (hwitness : txin.scriptWitness = []) :
    Reads readTxIn txin.serialize txin := by
  rw [CTxIn.serialize, append_assoc]
  refine reads_bind (reads_outPoint hn) (reads_bind (reads_varBytes hscript)
    (reads_bind_pure (reads_uint32 _) ?_))
  rw [← hwitness]
  exact reads_pure txin

theorem reads_int64 {value : Int} (hlow : -(2 ^ 63) ≤ value) (hhigh : value < 2 ^ 63) :
    Reads readInt64 (serializeInt64 value) value := by
  have hmod : (value % 2 ^ 64).toNat < 256 ^ 8 := by omega
  refine reads_bind_pure (reads_number hmod) ?_
  have hback : (if (value % 2 ^ 64).toNat < 2 ^ 63 then ((value % 2 ^ 64).toNat : Int)
      else (value % 2 ^ 64).toNat - 2 ^ 64) = value := by
    split <;> omega
  rw [hback]
  exact reads_pure value

theorem reads_output {txout : CTxOut} (hlow : -(2 ^ 63) ≤ txout.nValue)
    (hhigh : txout.nValue < 2 ^ 63) (hscript : txout.scriptPubKey.length ≤ MAX_SIZE) :
    Reads readOutput txout.serialize txout :=
  reads_bind (reads_int64 hlow hhigh) (reads_bind_pure (reads_varBytes hscript) (reads_pure txout))

theorem yields_outPoint : Yields readOutPoint fun outpoint used => used = outpoint.serialize := by
  refine yields_bind yields_uint256 fun hash used hhash => ?_
  refine yields_bind (yields_number 4) fun n used' hn => yields_pure ?_
  rw [hhash, hn.1, append_nil]
  rfl

theorem yields_txIn :
    Yields readTxIn fun txin used => used = txin.serialize ∧ txin.scriptWitness = [] := by
  refine yields_bind yields_outPoint fun prevout used hprevout => ?_
  refine yields_bind yields_varBytes fun scriptSig used' hscript => ?_
  refine yields_bind yields_uint32 fun nSequence used'' hsequence => yields_pure ?_
  rw [hprevout, hscript, hsequence, append_nil, ← append_assoc]
  exact ⟨rfl, rfl⟩

theorem yields_int64 : Yields readInt64 fun value used => used = serializeInt64 value := by
  refine yields_bind (yields_number 8) fun value used hvalue => yields_pure ?_
  have hback : ((if value < 2 ^ 63 then (value : Int) else value - 2 ^ 64) % 2 ^ 64).toNat = value := by
    have := hvalue.2
    split <;> omega
  rw [serializeInt64, hback, hvalue.1, append_nil]

theorem yields_output : Yields readOutput fun txout used => used = txout.serialize := by
  refine yields_bind yields_int64 fun nValue used hvalue => ?_
  refine yields_bind yields_varBytes fun scriptPubKey used' hscript => yields_pure ?_
  rw [hvalue, hscript, append_nil]
  rfl

/-! ### `UnserializeTransaction` -/

def readWitnesses : List CTxIn → ByteReader (List CTxIn)
  | [] => pure []
  | txin :: rest => do
    let stack ← readVector readVarBytes
    let rest ← readWitnesses rest
    pure ({ txin with scriptWitness := stack } :: rest)

def readTxBody (fAllowWitness : Bool) : ByteReader (UInt8 × List CTxIn × List CTxOut) := do
  let vin ← readVector readTxIn
  if vin.isEmpty && fAllowWitness then do
    -- a dummy or an empty vector
    let flags ← readOne endOfFile
    if flags ≠ 0 then do
      let vin ← readVector readTxIn
      let vout ← readVector readOutput
      pure (flags, vin, vout)
    else pure (flags, [], [])
  else do
    let vout ← readVector readOutput
    pure (0, vin, vout)

def readTxWitness (fAllowWitness : Bool) (flags : UInt8) (vin : List CTxIn) :
    ByteReader (UInt8 × List CTxIn) :=
  if flags &&& 1 ≠ 0 && fAllowWitness then do
    let vin ← readWitnesses vin
    if vin.any fun txin => !txin.scriptWitness.isEmpty then pure (flags ^^^ 1, vin)
    else throw "Superfluous witness record"
  else pure (flags, vin)

def unserializeTransaction (fAllowWitness : Bool) : ByteReader CTransaction := do
  let nVersion ← readUInt32
  let (flags, vin, vout) ← readTxBody fAllowWitness
  let (flags, vin) ← readTxWitness fAllowWitness flags vin
  if flags ≠ 0 then throw "Unknown transaction optional data"
  else do
    let nLockTime ← readUInt32
    pure { nVersion := nVersion.toInt32, vin, vout, nLockTime }

/-! ### What is written is read back -/

def CTxIn.stripped (txin : CTxIn) : CTxIn := { txin with scriptWitness := [] }

def CTransaction.stripped (tx : CTransaction) : CTransaction :=
  { tx with vin := tx.vin.map CTxIn.stripped }

/-- The fields are within the types of the source. -/
structure CTransaction.FieldsOk (tx : CTransaction) : Prop where
  index : ∀ txin ∈ tx.vin, txin.prevout.n < 2 ^ 32
  value : ∀ txout ∈ tx.vout, -(2 ^ 63) ≤ txout.nValue ∧ txout.nValue < 2 ^ 63

/-- No vector that is written is longer than `MAX_SIZE`. -/
structure CTransaction.SizesOk (tx : CTransaction) (fAllowWitness : Bool) : Prop where
  vin : tx.vin.length ≤ MAX_SIZE
  vout : tx.vout.length ≤ MAX_SIZE
  scriptSig : ∀ txin ∈ tx.vin, txin.scriptSig.length ≤ MAX_SIZE
  scriptPubKey : ∀ txout ∈ tx.vout, txout.scriptPubKey.length ≤ MAX_SIZE
  stack : fAllowWitness = true → ∀ txin ∈ tx.vin, txin.scriptWitness.length ≤ MAX_SIZE
  item : fAllowWitness = true →
    ∀ txin ∈ tx.vin, ∀ item ∈ txin.scriptWitness, item.length ≤ MAX_SIZE

variable {tx : CTransaction} {fAllowWitness : Bool}

theorem map_serialize_stripped (vin : List CTxIn) :
    (vin.map CTxIn.stripped).map CTxIn.serialize = vin.map CTxIn.serialize := by
  rw [map_map]
  rfl

theorem map_stripped_of_noWitness {vin : List CTxIn} (h : ∀ txin ∈ vin, txin.scriptWitness = []) :
    vin.map CTxIn.stripped = vin := by
  conv_rhs => rw [← map_id vin]
  apply map_congr_left
  intro txin hmem
  rw [CTxIn.stripped, ← h txin hmem]
  rfl

theorem noWitness_of_hasWitness (h : tx.hasWitness = false) :
    ∀ txin ∈ tx.vin, txin.scriptWitness = [] := by
  intro txin hmem
  have := any_eq_false.mp h txin hmem
  simpa using this

theorem stripped_of_hasWitness (h : tx.hasWitness = false) : tx.stripped = tx := by
  rw [CTransaction.stripped, map_stripped_of_noWitness (noWitness_of_hasWitness h)]

theorem hasWitness_of_noWitness (h : ∀ txin ∈ tx.vin, txin.scriptWitness = []) :
    (fAllowWitness && tx.hasWitness) = false := by
  have hnone : tx.hasWitness = false := by
    apply any_eq_false.mpr
    intro txin hmem
    rw [h txin hmem]
    simp
  rw [hnone, Bool.and_false]

theorem serialize_of_hasWitness_false (h : (fAllowWitness && tx.hasWitness) = false) :
    tx.serialize fAllowWitness = leBytes 4 tx.nVersion.toUInt32.toNat ++
      ((serializeVector (tx.vin.map CTxIn.serialize) ++
        serializeVector (tx.vout.map CTxOut.serialize)) ++ leBytes 4 tx.nLockTime.toNat) := by
  simp only [CTransaction.serialize, h, Bool.false_eq_true, if_false, append_assoc,
    nil_append]

theorem serialize_of_hasWitness (h : tx.hasWitness = true) :
    tx.serialize true = leBytes 4 tx.nVersion.toUInt32.toNat ++
      (([0, 1] ++ (serializeVector (tx.vin.map CTxIn.serialize) ++
        serializeVector (tx.vout.map CTxOut.serialize))) ++
      (tx.serializeWitness ++ leBytes 4 tx.nLockTime.toNat)) := by
  simp only [CTransaction.serialize, h, Bool.and_self, if_true, append_assoc]

theorem reads_vin (hfields : tx.FieldsOk) (hsizes : tx.SizesOk fAllowWitness) :
    Reads (readVector readTxIn) (serializeVector (tx.vin.map CTxIn.serialize))
      (tx.vin.map CTxIn.stripped) := by
  rw [← map_serialize_stripped]
  apply reads_vector
  · rw [length_map]
    exact hsizes.vin
  · intro txin hmem
    obtain ⟨original, horiginal, rfl⟩ := mem_map.mp hmem
    exact reads_txIn (hfields.index original horiginal) (hsizes.scriptSig original horiginal) rfl

theorem reads_vout (hfields : tx.FieldsOk) (hsizes : tx.SizesOk fAllowWitness) :
    Reads (readVector readOutput) (serializeVector (tx.vout.map CTxOut.serialize)) tx.vout := by
  apply reads_vector hsizes.vout
  intro txout hmem
  obtain ⟨hlow, hhigh⟩ := hfields.value txout hmem
  exact reads_output hlow hhigh (hsizes.scriptPubKey txout hmem)

theorem reads_witnesses : ∀ {vin : List CTxIn},
    (∀ txin ∈ vin, txin.scriptWitness.length ≤ MAX_SIZE) →
    (∀ txin ∈ vin, ∀ item ∈ txin.scriptWitness, item.length ≤ MAX_SIZE) →
    Reads (readWitnesses (vin.map CTxIn.stripped))
      (vin.map fun txin => serializeVector (txin.scriptWitness.map serializeBytes)).flatten vin
  | [], _, _ => reads_pure []
  | txin :: rest, hstack, hitem => by
    refine reads_bind (reads_vector (hstack txin (by simp)) fun item hmem => ?_)
      (reads_bind_pure (reads_witnesses ?_ ?_) (reads_pure (txin :: rest)))
    · exact reads_varBytes (hitem txin (by simp) item hmem)
    · exact fun other hother => hstack other (by simp [hother])
    · exact fun other hother => hitem other (by simp [hother])

theorem reads_txBody_basic (hne : tx.vin ≠ []) (hfields : tx.FieldsOk)
    (hsizes : tx.SizesOk fAllowWitness) :
    Reads (readTxBody fAllowWitness) (serializeVector (tx.vin.map CTxIn.serialize) ++
      serializeVector (tx.vout.map CTxOut.serialize)) (0, tx.vin.map CTxIn.stripped, tx.vout) := by
  refine reads_bind (reads_vin hfields hsizes) ?_
  have hnonempty : (tx.vin.map CTxIn.stripped).isEmpty = false := by simpa using hne
  rw [hnonempty]
  exact reads_bind_pure (reads_vout hfields hsizes) (reads_pure _)

theorem reads_txBody_extended (hfields : tx.FieldsOk) (hsizes : tx.SizesOk fAllowWitness) :
    Reads (readTxBody true) ([0, 1] ++ (serializeVector (tx.vin.map CTxIn.serialize) ++
      serializeVector (tx.vout.map CTxOut.serialize))) (1, tx.vin.map CTxIn.stripped, tx.vout) := by
  have hdummy : Reads (readVector readTxIn) (serializeVector ([].map CTxIn.serialize)) [] :=
    reads_vector (Nat.zero_le _) fun _ hmem => absurd hmem not_mem_nil
  have hsplit : ([0, 1] : Bytes) ++ (serializeVector (tx.vin.map CTxIn.serialize) ++
        serializeVector (tx.vout.map CTxOut.serialize)) =
      serializeVector ([].map CTxIn.serialize) ++ ([1] ++
        (serializeVector (tx.vin.map CTxIn.serialize) ++
          serializeVector (tx.vout.map CTxOut.serialize))) := rfl
  rw [hsplit]
  refine reads_bind hdummy (reads_bind (reads_one endOfFile 1) ?_)
  exact reads_bind (reads_vin hfields hsizes) (reads_bind_pure (reads_vout hfields hsizes)
    (reads_pure _))

theorem reads_txWitness (hsizes : tx.SizesOk true) (hwitness : tx.hasWitness = true) :
    Reads (readTxWitness true 1 (tx.vin.map CTxIn.stripped)) tx.serializeWitness (0, tx.vin) := by
  refine reads_bind_pure (reads_witnesses (hsizes.stack rfl) (hsizes.item rfl)) ?_
  rw [CTransaction.hasWitness] at hwitness
  rw [if_pos hwitness]
  exact reads_pure _

/-- **What is written is read back**, with the witnesses or without them. -/
theorem reads_transaction (hne : tx.vin ≠ []) (hfields : tx.FieldsOk)
    (hsizes : tx.SizesOk fAllowWitness) :
    Reads (unserializeTransaction fAllowWitness) (tx.serialize fAllowWitness)
      (if fAllowWitness then tx else tx.stripped) := by
  have hlast : ∀ tx' : CTransaction, tx'.nVersion = tx.nVersion → tx'.nLockTime = tx.nLockTime →
      Reads (do
        let nLockTime ← readUInt32
        pure { nVersion := tx.nVersion.toUInt32.toInt32, vin := tx'.vin, vout := tx'.vout, nLockTime }
        : ByteReader CTransaction) (leBytes 4 tx.nLockTime.toNat) tx' := by
    intro tx' hversion hlock
    refine reads_bind_pure (reads_uint32 _) ?_
    rw [Int32.toInt32_toUInt32, ← hversion, ← hlock]
    exact reads_pure tx'
  cases hflags : fAllowWitness && tx.hasWitness with
  | true =>
    obtain ⟨rfl, hwitness⟩ := Bool.and_eq_true_iff.mp hflags
    rw [serialize_of_hasWitness hwitness]
    exact reads_bind (reads_uint32 _) (reads_bind (reads_txBody_extended hfields hsizes)
      (reads_bind (reads_txWitness hsizes hwitness) (hlast tx rfl rfl)))
  | false =>
    have hresult : (if fAllowWitness then tx else tx.stripped) = tx.stripped := by
      cases fAllowWitness with
      | false => rfl
      | true => exact (stripped_of_hasWitness hflags).symm
    have hnone : Reads (readTxWitness fAllowWitness 0 (tx.vin.map CTxIn.stripped)) []
        (0, tx.vin.map CTxIn.stripped) := reads_pure _
    rw [serialize_of_hasWitness_false hflags, hresult]
    exact reads_bind (reads_uint32 _) (reads_bind (reads_txBody_basic hne hfields hsizes)
      (reads_bind hnone (hlast tx.stripped rfl rfl)))

/-! ### What is read is what would be written -/

def NoWitness (vin : List CTxIn) : Prop := ∀ txin ∈ vin, txin.scriptWitness = []

/-- What the flags, inputs and outputs were read from. -/
inductive BodyFrom : UInt8 × List CTxIn × List CTxOut → Bytes → Prop
  | basic {vin : List CTxIn} {vout : List CTxOut} : NoWitness vin →
      BodyFrom (0, vin, vout) (serializeVector (vin.map CTxIn.serialize) ++
        serializeVector (vout.map CTxOut.serialize))
  | empty {used : Bytes} : BodyFrom (0, [], []) used
  | extended {flags : UInt8} {vin : List CTxIn} {vout : List CTxOut} : flags ≠ 0 → NoWitness vin →
      BodyFrom (flags, vin, vout) ([0, flags] ++ (serializeVector (vin.map CTxIn.serialize) ++
        serializeVector (vout.map CTxOut.serialize)))

theorem yields_vout : Yields (readVector readOutput) fun vout used =>
    used = serializeVector (vout.map CTxOut.serialize) := by
  have helement : Yields readOutput fun txout used => used = txout.serialize ∧ True :=
    yields_output.mono fun _ _ h => ⟨h, trivial⟩
  exact (yields_vector helement).mono fun _ _ h => h.1

theorem yields_txBody : Yields (readTxBody true) BodyFrom := by
  refine yields_bind (yields_vector yields_txIn) fun vin used hvin => ?_
  obtain ⟨rfl, hnone⟩ := hvin
  split
  · -- the input vector reads as empty, so the extended format may follow
    rename_i hempty
    obtain rfl : vin = [] := by simpa using hempty
    refine yields_bind (yields_one endOfFile) fun flags used hflags => ?_
    obtain rfl := hflags
    split
    · rename_i hset
      refine yields_bind (yields_vector yields_txIn) fun vin used hvin => ?_
      obtain ⟨rfl, hnone⟩ := hvin
      refine yields_bind yields_vout fun vout used hvout => yields_pure ?_
      obtain rfl := hvout
      rw [append_nil]
      exact .extended hset hnone
    · rename_i hclear
      apply yields_pure
      rw [not_not] at hclear
      rw [hclear]
      exact .empty
  · refine yields_bind yields_vout fun vout used hvout => yields_pure ?_
    obtain rfl := hvout
    rw [append_nil]
    exact .basic hnone

theorem yields_witnesses : ∀ vin : List CTxIn, Yields (readWitnesses vin) fun vin' used =>
    used = (vin'.map fun txin => serializeVector (txin.scriptWitness.map serializeBytes)).flatten ∧
      vin'.map CTxIn.serialize = vin.map CTxIn.serialize
  | [] => yields_pure ⟨rfl, rfl⟩
  | txin :: rest => by
    have hitem : Yields readVarBytes fun item used => used = serializeBytes item ∧ True :=
      yields_varBytes.mono fun _ _ h => ⟨h, trivial⟩
    refine yields_bind (yields_vector hitem) fun stack used hstack => ?_
    refine yields_bind (yields_witnesses rest) fun rest' used' hrest => yields_pure ?_
    rw [hstack.1, hrest.1, append_nil]
    refine ⟨rfl, ?_⟩
    rw [map_cons, map_cons, hrest.2]
    rfl

/-- The witness of the last step: none, or one for the flag. -/
inductive WitnessFrom (flags : UInt8) (vin : List CTxIn) : UInt8 × List CTxIn → Bytes → Prop
  | none : WitnessFrom flags vin (flags, vin) []
  | some {vin' : List CTxIn} : (vin'.any fun txin => !txin.scriptWitness.isEmpty) = true →
      vin'.map CTxIn.serialize = vin.map CTxIn.serialize →
      WitnessFrom flags vin (flags ^^^ 1, vin')
        (vin'.map fun txin => serializeVector (txin.scriptWitness.map serializeBytes)).flatten

theorem yields_txWitness (flags : UInt8) (vin : List CTxIn) :
    Yields (readTxWitness true flags vin) (WitnessFrom flags vin) := by
  unfold readTxWitness
  split
  · refine yields_bind (yields_witnesses vin) fun vin' used hwitness => ?_
    obtain ⟨rfl, hsame⟩ := hwitness
    split
    · rename_i hany
      apply yields_pure
      rw [append_nil]
      exact .some hany hsame
    · exact yields_throw _ _
  · exact yields_pure .none

theorem xor_one_eq_zero {flags : UInt8} (h : flags ^^^ 1 = 0) : flags = 1 := by
  have hall : ∀ b : BitVec 8, b ^^^ 1 = 0 → b = 1 := by decide
  exact UInt8.toBitVec_inj.mp (hall flags.toBitVec (congrArg UInt8.toBitVec h))

/-- **What is read is what would be written**, for transactions with inputs. -/
theorem yields_transaction :
    Yields (unserializeTransaction true) fun tx used => tx.vin ≠ [] → used = tx.serialize true := by
  refine yields_bind yields_uint32 fun nVersion head hversion => ?_
  refine yields_bind yields_txBody fun body middle hbody => ?_
  obtain ⟨flags, vin, vout⟩ := body
  refine yields_bind (yields_txWitness flags vin) fun witness tail hwitness => ?_
  obtain ⟨flags', vin'⟩ := witness
  dsimp only
  split
  · exact yields_throw _ _
  · rename_i hflags
    rw [not_not] at hflags
    refine yields_bind yields_uint32 fun nLockTime last hlock => yields_pure ?_
    intro hne
    obtain rfl := hversion
    obtain rfl := hlock
    cases hwitness with
    | none =>
      -- no witness was read, so the flags were zero and the format is the basic one
      cases hbody with
      | basic hnone =>
        have hflag : (true && CTransaction.hasWitness
            { nVersion := nVersion.toInt32, vin, vout, nLockTime }) = false :=
          hasWitness_of_noWitness hnone
        rw [serialize_of_hasWitness_false hflag, UInt32.toUInt32_toInt32, append_nil,
          nil_append]
      | empty => exact absurd rfl hne
      | extended hset _ => exact absurd hflags hset
    | some hany hsame =>
      cases hbody with
      | basic => exact absurd hflags (by decide)
      | empty => exact absurd hflags (by decide)
      | extended hset hnone =>
        obtain rfl := xor_one_eq_zero hflags
        have hflag : CTransaction.hasWitness
            { nVersion := nVersion.toInt32, vin := vin', vout, nLockTime } = true := hany
        rw [serialize_of_hasWitness hflag, UInt32.toUInt32_toInt32, hsame, append_nil]
        rfl

/-! ### Sizes that are refused -/

theorem refuses_transaction {txin : CTxIn} {rest : List CTxIn} (hvin : tx.vin = txin :: rest)
    (hnone : (fAllowWitness && tx.hasWitness) = false) (hcount : tx.vin.length ≤ MAX_SIZE)
    (hn : txin.prevout.n < 2 ^ 32) (hlong : MAX_SIZE < txin.scriptSig.length)
    (hfits : txin.scriptSig.length < 2 ^ 64) :
    Refuses (unserializeTransaction fAllowWitness) (tx.serialize fAllowWitness)
      "ReadCompactSize(): size too large" := by
  have htxin : Refuses readTxIn txin.serialize "ReadCompactSize(): size too large" := by
    rw [CTxIn.serialize, serializeBytes, append_assoc, append_assoc]
    exact refuses_bind (reads_outPoint hn)
      ((((refuses_compactSize hlong hfits).bind _).bind _).append _)
  have hinputs : Refuses (readVector readTxIn) (serializeVector (tx.vin.map CTxIn.serialize))
      "ReadCompactSize(): size too large" := by
    rw [serializeVector, length_map]
    refine refuses_bind (reads_compactSize hcount) ?_
    rw [hvin]
    exact (htxin.bind _).append _
  rw [serialize_of_hasWitness_false hnone]
  refine refuses_bind (reads_uint32 _) ?_
  exact (((hinputs.bind _).append _).bind _).append _

/-! ### Unambiguous encodings -/

/-- A transaction with inputs and no vector above `MAX_SIZE` is read back, with witnesses or
    stripped; and no other bytes are read as it. -/
theorem transaction_encoding_unambiguous :
    (∀ (tx : CTransaction) (fAllowWitness : Bool), tx.vin ≠ [] → tx.FieldsOk →
      tx.SizesOk fAllowWitness → Reads (unserializeTransaction fAllowWitness)
        (tx.serialize fAllowWitness) (if fAllowWitness then tx else tx.stripped)) ∧
    (∀ (bytes rest : Bytes) (tx : CTransaction),
      (unserializeTransaction true).run bytes = .ok (tx, rest) → tx.vin ≠ [] →
        bytes = tx.serialize true ++ rest) ∧
    ∀ (bytes bytes' : Bytes) (tx : CTransaction), tx.vin ≠ [] →
      (unserializeTransaction true).run bytes = .ok (tx, []) →
      (unserializeTransaction true).run bytes' = .ok (tx, []) → bytes = bytes' := by
  have hback : ∀ (bytes rest : Bytes) (tx : CTransaction),
      (unserializeTransaction true).run bytes = .ok (tx, rest) → tx.vin ≠ [] →
        bytes = tx.serialize true ++ rest := by
    intro bytes rest tx hrun hne
    obtain ⟨used, rfl, hused⟩ := yields_transaction bytes tx rest hrun
    rw [hused hne]
  refine ⟨?_, hback, ?_⟩
  · exact fun tx fAllowWitness hne hfields hsizes => reads_transaction hne hfields hsizes
  · intro bytes bytes' tx hne hrun hrun'
    rw [hback bytes [] tx hrun hne, hback bytes' [] tx hrun' hne]

namespace Regtest

def witnessTx : CTransaction where
  vin := [{ prevout := ⟨7, 0⟩, scriptSig := [], nSequence := 1, scriptWitness := [[1, 2], []] }]
  vout := [⟨-1, [0x51]⟩]

theorem witnessTx_read :
    Reads (unserializeTransaction true) (witnessTx.serialize true) witnessTx ∧
      (∀ bytes rest, (unserializeTransaction true).run bytes = .ok (witnessTx, rest) →
        bytes = witnessTx.serialize true ++ rest) ∧
      ∀ bytes, (unserializeTransaction true).run bytes = .ok (witnessTx, []) →
        bytes = witnessTx.serialize true := by
  have hread : Reads (unserializeTransaction true) (witnessTx.serialize true) witnessTx := by
    apply transaction_encoding_unambiguous.1 witnessTx true (by decide)
    · exact ⟨by decide, by decide⟩
    · constructor <;> decide
  have hwhole : (unserializeTransaction true).run (witnessTx.serialize true) =
      .ok (witnessTx, []) := by
    have h := hread []
    rwa [append_nil] at h
  refine ⟨hread, fun bytes rest hbytes => ?_, fun bytes hbytes => ?_⟩
  · exact transaction_encoding_unambiguous.2.1 bytes rest witnessTx hbytes (by decide)
  · exact transaction_encoding_unambiguous.2.2 bytes _ witnessTx (by decide) hbytes hwhole

/-- A spend whose script is one byte too long to be read. -/
def longTx : CTransaction where
  vin := [{ prevout := ⟨7, 0⟩, scriptSig := List.replicate (MAX_SIZE + 1) 0, nSequence := 1 }]
  vout := []

theorem longTx_not_read : longTx.vin ≠ [] ∧ longTx.FieldsOk ∧
    (unserializeTransaction true).run (longTx.serialize true) =
      .error "ReadCompactSize(): size too large" := by
  refine ⟨?_, ?_, ?_⟩
  · exact cons_ne_nil _ _
  · constructor
    · intro txin hmem
      rw [mem_singleton.mp hmem]
      decide
    · exact fun _ hmem => absurd hmem not_mem_nil
  · have hlength : (List.replicate (MAX_SIZE + 1) (0 : UInt8)).length = MAX_SIZE + 1 :=
      length_replicate
    have hmax : MAX_SIZE = 33554432 := rfl
    have h : Refuses (unserializeTransaction true) (longTx.serialize true) _ :=
      refuses_transaction rfl rfl (by decide) (by decide) (by rw [hlength]; omega)
        (by rw [hlength]; omega)
    have hrun := h []
    rwa [append_nil] at hrun

end Regtest

end VBitcoin
