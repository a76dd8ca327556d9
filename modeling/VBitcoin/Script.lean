import VBitcoin.Primitives

/-!
**Scripts as byte strings** — what validation reads without running a script
(`script/script.cpp`, `script/interpreter.cpp`): instructions (`GetScriptOp`),
signature-operation counts, the recognised output shapes and pushing a number.  `scriptOps` is
the loop of the source that calls `GetOp` until the script ends or an instruction is
malformed.
-/

namespace VBitcoin

/-! ### Opcodes and limits -/

def OP_0 : UInt8 := 0x00
def OP_PUSHDATA1 : UInt8 := 0x4c
def OP_PUSHDATA2 : UInt8 := 0x4d
def OP_PUSHDATA4 : UInt8 := 0x4e
def OP_1 : UInt8 := 0x51
def OP_16 : UInt8 := 0x60
def OP_RETURN : UInt8 := 0x6a
def OP_DUP : UInt8 := 0x76
def OP_EQUAL : UInt8 := 0x87
def OP_EQUALVERIFY : UInt8 := 0x88
def OP_HASH160 : UInt8 := 0xa9
def OP_CHECKSIG : UInt8 := 0xac
def OP_CHECKSIGVERIFY : UInt8 := 0xad
def OP_CHECKMULTISIG : UInt8 := 0xae
def OP_CHECKMULTISIGVERIFY : UInt8 := 0xaf
def OP_INVALIDOPCODE : UInt8 := 0xff

def MAX_PUBKEYS_PER_MULTISIG : Nat := 20
def MAX_SCRIPT_SIZE : Nat := 10000

/-- A number from its little-endian bytes (`ReadLE16`, `ReadLE32`). -/
def readLE : Bytes → Nat
  | [] => 0
  | byte :: rest => byte.toNat + 256 * readLE rest

variable (script : CScript)

def isUnspendable : Bool :=
  (0 < script.length && script.head? == some OP_RETURN) || MAX_SCRIPT_SIZE < script.length

/-! ### Reading instructions -/

/-- How many bytes the length field of a `PUSHDATA` instruction takes. -/
def pushDataWidth (opcode : UInt8) : Nat :=
  if opcode = OP_PUSHDATA1 then 1 else if opcode = OP_PUSHDATA2 then 2 else 4

/-- The length of a push's operand, and the script from the operand on. -/
def pushOperand (opcode : UInt8) (pc : CScript) : Option (Nat × CScript) :=
  if opcode < OP_PUSHDATA1 then some (opcode.toNat, pc)
  else if pc.length < pushDataWidth opcode then none
  else some (readLE (pc.take (pushDataWidth opcode)), pc.drop (pushDataWidth opcode))

/-- `none` at the end of the script and on a truncated push. -/
def getScriptOp : CScript → Option (UInt8 × Bytes × CScript)
  | [] => none
  | opcode :: pc =>
    if opcode ≤ OP_PUSHDATA4 then
      match pushOperand opcode pc with
      | none => none
      | some (nSize, pc) =>
        if pc.length < nSize then none else some (opcode, pc.take nSize, pc.drop nSize)
    else some (opcode, [], pc)

/-- The instructions read, and whether the script was read to its end. -/
def scriptOpsFuel : Nat → CScript → List (UInt8 × Bytes) × Bool
  | 0, script => ([], script.isEmpty)
  | fuel + 1, script =>
    if script.isEmpty then ([], true)
    else
      match getScriptOp script with
      | none => ([], false)
      | some (opcode, data, pc) =>
        let (ops, complete) := scriptOpsFuel fuel pc
        ((opcode, data) :: ops, complete)

/-- Every instruction takes at least one byte, so the length is enough fuel. -/
def scriptOps : List (UInt8 × Bytes) × Bool :=
  scriptOpsFuel script.length script

theorem pushOperand_length {opcode : UInt8} {pc operand : CScript} {nSize : Nat}
    (h : pushOperand opcode pc = some (nSize, operand)) : operand.length ≤ pc.length := by
  unfold pushOperand at h
  split at h
  · cases h
    exact Nat.le_refl _
  · split at h
    · cases h
    · cases h
      simp only [List.length_drop]
      omega

theorem getScriptOp_length {script pc : CScript} {opcode : UInt8} {data : Bytes}
    (h : getScriptOp script = some (opcode, data, pc)) : pc.length < script.length := by
  cases script with
  | nil => cases h
  | cons first rest =>
    rw [List.length_cons]
    rw [getScriptOp] at h
    by_cases hpush : first ≤ OP_PUSHDATA4
    · rw [if_pos hpush] at h
      cases hoperand : pushOperand first rest with
      | none =>
        rw [hoperand] at h
        cases h
      | some r =>
        have hle := pushOperand_length (show _ = some (r.1, r.2) from hoperand)
        rw [hoperand] at h
        dsimp only at h
        by_cases hshort : r.2.length < r.1
        · rw [if_pos hshort] at h
          cases h
        · rw [if_neg hshort] at h
          cases h
          simp only [List.length_drop]
          omega
    · rw [if_neg hpush] at h
      cases h
      omega

theorem scriptOpsFuel_congr : ∀ (n m : Nat) (script : CScript), script.length ≤ n →
    script.length ≤ m → scriptOpsFuel n script = scriptOpsFuel m script
  | 0, m, script, hn, _ => by
      obtain rfl : script = [] := List.eq_nil_of_length_eq_zero (by omega)
      cases m <;> simp [scriptOpsFuel]
  | n + 1, 0, script, _, hm => by
      obtain rfl : script = [] := List.eq_nil_of_length_eq_zero (by omega)
      simp [scriptOpsFuel]
  | n + 1, m + 1, script, hn, hm => by
      unfold scriptOpsFuel
      split
      · rfl
      · cases hop : getScriptOp script with
        | none => rfl
        | some r =>
          obtain ⟨opcode, data, pc⟩ := r
          have hlt := getScriptOp_length hop
          simp only [scriptOpsFuel_congr n m pc (by omega) (by omega)]

theorem scriptOps_eq (hne : script ≠ []) :
    scriptOps script =
      match getScriptOp script with
      | none => ([], false)
      | some (opcode, data, pc) => ((opcode, data) :: (scriptOps pc).1, (scriptOps pc).2) := by
  obtain ⟨first, rest, rfl⟩ := List.exists_cons_of_ne_nil hne
  rw [scriptOps, List.length_cons, scriptOpsFuel]
  simp only [List.isEmpty_cons, Bool.false_eq_true, if_false]
  cases hop : getScriptOp (first :: rest) with
  | none => rfl
  | some r =>
    obtain ⟨opcode, data, pc⟩ := r
    have hlt := getScriptOp_length hop
    rw [List.length_cons] at hlt
    simp only [scriptOps, scriptOpsFuel_congr rest.length pc.length pc (by omega) (Nat.le_refl _)]

section Instructions

variable {script pc : CScript} {opcode : UInt8} {data : Bytes}

theorem getScriptOp_opcode (h : ¬opcode ≤ OP_PUSHDATA4) (pc : CScript) :
    getScriptOp (opcode :: pc) = some (opcode, [], pc) := by
  rw [getScriptOp, if_neg h]

theorem getScriptOp_push (h : opcode < OP_PUSHDATA1)
    (hlen : data.length = opcode.toNat) (pc : CScript) :
    getScriptOp (opcode :: (data ++ pc)) = some (opcode, data, pc) := by
  have hle : opcode ≤ OP_PUSHDATA4 := UInt8.le_trans (UInt8.le_of_lt h) (by decide)
  have hfits : ¬(data ++ pc).length < opcode.toNat := by
    rw [List.length_append]
    omega
  rw [getScriptOp, if_pos hle, pushOperand, if_pos h]
  dsimp only
  rw [if_neg hfits, ← hlen, List.take_left, List.drop_left]

theorem scriptOps_cons (h : getScriptOp script = some (opcode, data, pc)) :
    scriptOps script = ((opcode, data) :: (scriptOps pc).1, (scriptOps pc).2) := by
  have hne : script ≠ [] := by
    rintro rfl
    cases h
  rw [scriptOps_eq script hne, h]

end Instructions

/-! ### Signature operations -/

def decodeOP_N (opcode : UInt8) : Nat :=
  if opcode = OP_0 then 0 else opcode.toNat - (OP_1.toNat - 1)

/-- What one instruction adds to the count; `lastOpcode` is the one before it. -/
def sigOpsOf (fAccurate : Bool) (lastOpcode opcode : UInt8) : Nat :=
  if opcode = OP_CHECKSIG ∨ opcode = OP_CHECKSIGVERIFY then 1
  else if opcode = OP_CHECKMULTISIG ∨ opcode = OP_CHECKMULTISIGVERIFY then
    if fAccurate ∧ OP_1 ≤ lastOpcode ∧ lastOpcode ≤ OP_16 then decodeOP_N lastOpcode
    else MAX_PUBKEYS_PER_MULTISIG
  else 0

/-- `CScript::GetSigOpCount(bool)`; a malformed instruction ends the count. -/
def getSigOpCount (fAccurate : Bool) : Nat :=
  ((scriptOps script).1.foldl
    (fun (n, lastOpcode) op => (n + sigOpsOf fAccurate lastOpcode op.1, op.1))
    (0, OP_INVALIDOPCODE)).1

def isPayToScriptHash : Bool :=
  script.length == 23 && script.getD 0 0 == OP_HASH160 && script.getD 1 0 == 0x14 &&
    script.getD 22 0 == OP_EQUAL

def isPushOnly : Bool :=
  (scriptOps script).2 && (scriptOps script).1.all fun op => op.1 ≤ OP_16

/-- The data of the last instruction: what `vData` holds after the loop. -/
def lastPushedData : Bytes :=
  (((scriptOps script).1.getLast?).map Prod.snd).getD []

def getSigOpCountP2SH (script scriptSig : CScript) : Nat :=
  if !isPayToScriptHash script then getSigOpCount script true
  -- a malformed or non-push instruction returns 0 from inside the loop
  else if isPushOnly scriptSig then getSigOpCount (lastPushedData scriptSig) true
  else 0

def isWitnessProgram : Option (Nat × Bytes) :=
  match script with
  | first :: second :: program =>
    if script.length < 4 || 42 < script.length then none
    else if first ≠ OP_0 ∧ (first < OP_1 ∨ OP_16 < first) then none
    else if second.toNat + 2 = script.length then some (decodeOP_N first, program)
    else none
  | _ => none

def witnessSigOps (witversion : Nat) (witprogram : Bytes) (witness : List Bytes) : Nat :=
  if witversion = 0 then
    if witprogram.length = 20 then 1
    else
      match witness.getLast? with
      | some subscript => if witprogram.length = 32 then getSigOpCount subscript true else 0
      | none => 0
  else 0

/-- `CountWitnessSigOps` with `SCRIPT_VERIFY_P2SH | SCRIPT_VERIFY_WITNESS`. -/
def countWitnessSigOps (scriptSig scriptPubKey : CScript) (witness : List Bytes) : Nat :=
  match isWitnessProgram scriptPubKey with
  | some (version, program) => witnessSigOps version program witness
  | none =>
    if isPayToScriptHash scriptPubKey && isPushOnly scriptSig then
      match isWitnessProgram (lastPushedData scriptSig) with
      | some (version, program) => witnessSigOps version program witness
      | none => 0
    else 0

/-! ### Pushing a number -/

/-- The bytes `CScriptNum::serialize` takes off a positive value, low byte first. -/
def magnitudeBytes : Nat → Nat → Bytes
  | 0, _ => []
  | fuel + 1, absvalue =>
    if absvalue = 0 then [] else UInt8.ofNat (absvalue % 256) :: magnitudeBytes fuel (absvalue / 256)

/-- `CScriptNum::serialize` on a non-negative `int64_t`. -/
def scriptNumSerialize (value : Nat) : Bytes :=
  let result := magnitudeBytes 8 value
  match result.getLast? with
  | some last => if 0x80 ≤ last.toNat then result ++ [0] else result
  | none => []

/-- `CScript() << n` for a block height. -/
def pushInt (n : Nat) : CScript :=
  if 1 ≤ n ∧ n ≤ 16 then [UInt8.ofNat (n + (OP_1.toNat - 1))]
  else if n = 0 then [OP_0]
  -- the number takes at most nine bytes, so its push is one length byte
  else UInt8.ofNat (scriptNumSerialize n).length :: scriptNumSerialize n

end VBitcoin
