import VBitcoin.ExecRules
import VBitcoin.TimeLocks

/-!
**What the script interpreter knows about bytes** (`script/script.h`,
`script/interpreter.cpp`) — numbers and booleans on the stack, the accepted forms of
signatures, public keys and pushes, and `FindAndDelete`, with the flags and the errors.  What a
stronger set of flags can change is said once, in `flagSet_mono`.
-/

namespace VBitcoin

/-! ### Errors -/

/-- `ScriptError`, without the codes that nothing sets. -/
inductive ScriptError where
  | SCRIPT_ERR_UNKNOWN_ERROR
  | SCRIPT_ERR_EVAL_FALSE
  | SCRIPT_ERR_OP_RETURN
  | SCRIPT_ERR_SCRIPT_SIZE
  | SCRIPT_ERR_PUSH_SIZE
  | SCRIPT_ERR_OP_COUNT
  | SCRIPT_ERR_STACK_SIZE
  | SCRIPT_ERR_SIG_COUNT
  | SCRIPT_ERR_PUBKEY_COUNT
  | SCRIPT_ERR_VERIFY
  | SCRIPT_ERR_EQUALVERIFY
  | SCRIPT_ERR_CHECKMULTISIGVERIFY
  | SCRIPT_ERR_CHECKSIGVERIFY
  | SCRIPT_ERR_NUMEQUALVERIFY
  | SCRIPT_ERR_BAD_OPCODE
  | SCRIPT_ERR_DISABLED_OPCODE
  | SCRIPT_ERR_INVALID_STACK_OPERATION
  | SCRIPT_ERR_INVALID_ALTSTACK_OPERATION
  | SCRIPT_ERR_UNBALANCED_CONDITIONAL
  | SCRIPT_ERR_NEGATIVE_LOCKTIME
  | SCRIPT_ERR_UNSATISFIED_LOCKTIME
  | SCRIPT_ERR_SIG_HASHTYPE
  | SCRIPT_ERR_SIG_DER
  | SCRIPT_ERR_MINIMALDATA
  | SCRIPT_ERR_SIG_PUSHONLY
  | SCRIPT_ERR_SIG_HIGH_S
  | SCRIPT_ERR_SIG_NULLDUMMY
  | SCRIPT_ERR_PUBKEYTYPE
  | SCRIPT_ERR_CLEANSTACK
  | SCRIPT_ERR_MINIMALIF
  | SCRIPT_ERR_SIG_NULLFAIL
  | SCRIPT_ERR_DISCOURAGE_UPGRADABLE_NOPS
  | SCRIPT_ERR_DISCOURAGE_UPGRADABLE_WITNESS_PROGRAM
  | SCRIPT_ERR_WITNESS_PROGRAM_WRONG_LENGTH
  | SCRIPT_ERR_WITNESS_PROGRAM_WITNESS_EMPTY
  | SCRIPT_ERR_WITNESS_PROGRAM_MISMATCH
  | SCRIPT_ERR_WITNESS_MALLEATED
  | SCRIPT_ERR_WITNESS_MALLEATED_P2SH
  | SCRIPT_ERR_WITNESS_UNEXPECTED
  | SCRIPT_ERR_WITNESS_PUBKEYTYPE
  | SCRIPT_ERR_OP_CODESEPARATOR
  | SCRIPT_ERR_SIG_FINDANDDELETE
  deriving DecidableEq, Repr

inductive ScriptFailure where
  | serror (error : ScriptError)
  /-- A failed `assert`: the node aborts. -/
  | assertion (condition : String)
  deriving DecidableEq, Repr

abbrev ScriptRun := Except ScriptFailure

def setError {α : Type} (error : ScriptError) : ScriptRun α := .error (.serror error)

def demand (condition : Bool) (error : ScriptError) : ScriptRun Unit :=
  require condition (.serror error)

/-! ### Verification flags -/

def SCRIPT_VERIFY_P2SH : UInt32 := 0x1
def SCRIPT_VERIFY_STRICTENC : UInt32 := 0x2
def SCRIPT_VERIFY_DERSIG : UInt32 := 0x4
def SCRIPT_VERIFY_LOW_S : UInt32 := 0x8
def SCRIPT_VERIFY_NULLDUMMY : UInt32 := 0x10
def SCRIPT_VERIFY_SIGPUSHONLY : UInt32 := 0x20
def SCRIPT_VERIFY_MINIMALDATA : UInt32 := 0x40
def SCRIPT_VERIFY_DISCOURAGE_UPGRADABLE_NOPS : UInt32 := 0x80
def SCRIPT_VERIFY_CLEANSTACK : UInt32 := 0x100
def SCRIPT_VERIFY_CHECKLOCKTIMEVERIFY : UInt32 := 0x200
def SCRIPT_VERIFY_CHECKSEQUENCEVERIFY : UInt32 := 0x400
def SCRIPT_VERIFY_WITNESS : UInt32 := 0x800
def SCRIPT_VERIFY_DISCOURAGE_UPGRADABLE_WITNESS_PROGRAM : UInt32 := 0x1000
def SCRIPT_VERIFY_MINIMALIF : UInt32 := 0x2000
def SCRIPT_VERIFY_NULLFAIL : UInt32 := 0x4000
def SCRIPT_VERIFY_WITNESS_PUBKEYTYPE : UInt32 := 0x8000
def SCRIPT_VERIFY_CONST_SCRIPTCODE : UInt32 := 0x10000

def flagSet (flags mask : UInt32) : Bool := flags &&& mask != 0

def FlagsWithin (flags more : UInt32) : Prop := flags &&& more = flags

instance (flags more : UInt32) : Decidable (FlagsWithin flags more) :=
  inferInstanceAs (Decidable (_ = _))

theorem flagSet_mono {flags more mask : UInt32} (h : FlagsWithin flags more)
    (hset : flagSet flags mask = true) : flagSet more mask = true := by
  simp only [flagSet, bne_iff_ne, ne_eq] at hset ⊢
  intro hzero
  apply hset
  rw [← h, UInt32.and_assoc, hzero, UInt32.and_zero]

/-! ### Numbers and booleans on the stack -/

/-- `CastToBool`: some byte is not zero; a sign bit alone is negative zero. -/
def castToBool : Bytes → Bool
  | [] => false
  | [last] => last != 0 && last != 0x80
  | byte :: rest => byte != 0 || castToBool rest

namespace CScriptNum

def nDefaultMaxNumSize : Nat := 4

/-- `CScriptNum::set_vch`; the operands have at most five bytes. -/
def setVch (vch : Bytes) : Int64 :=
  match vch.getLast? with
  | none => 0
  | some last =>
    let result := readLE vch
    if last &&& 0x80 ≠ 0 then Int64.ofInt (-(result - 0x80 * 256 ^ (vch.length - 1) : Nat))
    else Int64.ofNat result

/-- Whether the number is encoded with the minimum possible number of bytes. -/
def isMinimal (vch : Bytes) : Bool :=
  match vch.reverse with
  | [] => true
  | last :: rest =>
    -- the most significant byte is nothing but a sign that the one below cannot hold
    last &&& 0x7f != 0 ||
      match rest with
      | [] => false
      | second :: _ => second &&& 0x80 != 0

/-- The constructor `CScriptNum(vch, fRequireMinimal, nMaxNumSize)`. -/
def ofVch (vch : Bytes) (fRequireMinimal : Bool) (nMaxNumSize : Nat) : ScriptRun CScriptNum := do
  demand (vch.length ≤ nMaxNumSize) .SCRIPT_ERR_UNKNOWN_ERROR
  demand (!fRequireMinimal || isMinimal vch) .SCRIPT_ERR_UNKNOWN_ERROR
  pure ⟨setVch vch⟩

variable (n : CScriptNum)

def getvch : Bytes :=
  let neg : Bool := n.m_value < 0
  let result := magnitudeBytes 8 n.m_value.toInt.natAbs
  match result.getLast? with
  | none => []
  | some last =>
    if last &&& 0x80 ≠ 0 then result ++ [if neg then 0x80 else 0]
    else if neg then result.dropLast ++ [last ||| 0x80]
    else result

def getint : Int :=
  if 2147483647 < n.toInt then 2147483647
  else if n.toInt < -2147483648 then -2147483648
  else n.toInt

def addAssign (rhs : Int64) : ScriptRun CScriptNum := do
  require (rhs == 0 || (0 < rhs && n.m_value ≤ Int64.maxValue - rhs) ||
    (rhs < 0 && Int64.minValue - rhs ≤ n.m_value)) (.assertion "operator+=")
  pure ⟨n.m_value + rhs⟩

def subAssign (rhs : Int64) : ScriptRun CScriptNum := do
  require (rhs == 0 || (0 < rhs && Int64.minValue + rhs ≤ n.m_value) ||
    (rhs < 0 && n.m_value ≤ Int64.maxValue + rhs)) (.assertion "operator-=")
  pure ⟨n.m_value - rhs⟩

def neg : ScriptRun CScriptNum := do
  require (n.m_value != Int64.minValue) (.assertion "m_value != min()")
  pure ⟨-n.m_value⟩

def ofBool (condition : Bool) : CScriptNum := ⟨if condition then 1 else 0⟩

end CScriptNum

theorem ofVch_mono (vch : Bytes) (nMaxNumSize : Nat) {strict weak : Bool}
    (h : weak = true → strict = true) :
    OkImplies (CScriptNum.ofVch vch strict nMaxNumSize)
      (CScriptNum.ofVch vch weak nMaxNumSize) := by
  apply okImplies_bind (.refl _)
  intro _
  apply okImplies_bind (okImplies_require _) fun _ => .refl _
  intro hstrict
  cases weak with
  | false => rfl
  | true => rwa [h rfl] at hstrict

/-! ### Signatures, public keys and pushes -/

/-- What the interpreter asks of the cryptographic code. -/
structure ScriptCrypto where
  ripemd160 : Bytes → Bytes
  sha1 : Bytes → Bytes
  sha256 : Bytes → Bytes
  checkLowS : Bytes → Bool

namespace ScriptCrypto

def hash160 (crypto : ScriptCrypto) (bytes : Bytes) : Bytes :=
  crypto.ripemd160 (crypto.sha256 bytes)

def hash256 (crypto : ScriptCrypto) (bytes : Bytes) : Bytes := crypto.sha256 (crypto.sha256 bytes)

end ScriptCrypto

inductive SigVersion where
  | BASE
  | WITNESS_V0
  deriving DecidableEq, Repr

variable (vchPubKey : Bytes)

def isCompressedOrUncompressedPubKey : Bool :=
  let first := vchPubKey.getD 0 0
  33 ≤ vchPubKey.length &&
    if first = 0x04 then vchPubKey.length = 65
    else if first = 0x02 ∨ first = 0x03 then vchPubKey.length = 33
    else false

def isCompressedPubKey : Bool :=
  let first := vchPubKey.getD 0 0
  vchPubKey.length = 33 && (first = 0x02 || first = 0x03)

/-- `IsValidSignatureEncoding`: strict DER, followed by the hash type. -/
def isValidSignatureEncoding (sig : Bytes) : Bool :=
  let byte (i : Nat) : UInt8 := sig.getD i 0
  let lenR := (byte 3).toNat
  let lenS := (byte (5 + lenR)).toNat
  9 ≤ sig.length && sig.length ≤ 73 && byte 0 = 0x30 &&
    (byte 1).toNat = sig.length - 3 &&
    -- the length of S lies inside the signature
    5 + lenR < sig.length && lenR + lenS + 7 = sig.length &&
    byte 2 = 0x02 && lenR ≠ 0 && byte 4 &&& 0x80 = 0 &&
    !(1 < lenR && byte 4 = 0x00 && byte 5 &&& 0x80 = 0) &&
    byte (lenR + 4) = 0x02 && lenS ≠ 0 && byte (lenR + 6) &&& 0x80 = 0 &&
    !(1 < lenS && byte (lenR + 6) = 0x00 && byte (lenR + 7) &&& 0x80 = 0)

def isDefinedHashtypeSignature (vchSig : Bytes) : Bool :=
  match vchSig.getLast? with
  | none => false
  | some last =>
    -- without `SIGHASH_ANYONECANPAY`, from `SIGHASH_ALL` to `SIGHASH_SINGLE`
    let nHashType := last &&& 0x7f
    1 ≤ nHashType && nHashType ≤ 3

def isLowDERSignature (crypto : ScriptCrypto) (vchSig : Bytes) : ScriptRun Unit := do
  demand (isValidSignatureEncoding vchSig) .SCRIPT_ERR_SIG_DER
  demand (crypto.checkLowS vchSig.dropLast) .SCRIPT_ERR_SIG_HIGH_S

/-- A check that is made when some of the flags are set. -/
def whenSet (flags mask : UInt32) (check : ScriptRun Unit) : ScriptRun Unit :=
  if flagSet flags mask then check else pure ()

def checkSignatureEncoding (crypto : ScriptCrypto) (vchSig : Bytes) (flags : UInt32) :
    ScriptRun Unit :=
  if vchSig = [] then pure ()
  else do
    whenSet flags (SCRIPT_VERIFY_DERSIG ||| SCRIPT_VERIFY_LOW_S ||| SCRIPT_VERIFY_STRICTENC)
      (demand (isValidSignatureEncoding vchSig) .SCRIPT_ERR_SIG_DER)
    whenSet flags SCRIPT_VERIFY_LOW_S (isLowDERSignature crypto vchSig)
    whenSet flags SCRIPT_VERIFY_STRICTENC
      (demand (isDefinedHashtypeSignature vchSig) .SCRIPT_ERR_SIG_HASHTYPE)

def checkPubKeyEncoding (flags : UInt32) (sigversion : SigVersion) : ScriptRun Unit := do
  whenSet flags SCRIPT_VERIFY_STRICTENC
    (demand (isCompressedOrUncompressedPubKey vchPubKey) .SCRIPT_ERR_PUBKEYTYPE)
  -- only compressed keys are accepted in segwit
  whenSet flags SCRIPT_VERIFY_WITNESS_PUBKEYTYPE
    (demand (sigversion ≠ .WITNESS_V0 || isCompressedPubKey vchPubKey)
      .SCRIPT_ERR_WITNESS_PUBKEYTYPE)

def checkMinimalPush (data : Bytes) (opcode : UInt8) : Bool :=
  let first := data.getD 0 0
  if data.length = 0 then opcode = OP_0
  else if data.length = 1 ∧ 1 ≤ first ∧ first ≤ 16 then false
  else if data.length = 1 ∧ first = 0x81 then false
  else if data.length ≤ 75 then opcode.toNat = data.length
  else if data.length ≤ 255 then opcode = OP_PUSHDATA1
  else if data.length ≤ 65535 then opcode = OP_PUSHDATA2
  else true

/-- `CScript() << b` for a vector of bytes. -/
def pushBytes (b : Bytes) : CScript :=
  if b.length < OP_PUSHDATA1.toNat then UInt8.ofNat b.length :: b
  else if b.length ≤ 0xff then OP_PUSHDATA1 :: UInt8.ofNat b.length :: b
  else if b.length ≤ 0xffff then OP_PUSHDATA2 :: leBytes 2 b.length ++ b
  else OP_PUSHDATA4 :: leBytes 4 b.length ++ b

/-! ### `FindAndDelete` -/

/-- Skip the copies of `b` at the front of the script and count them. -/
def skipCopies (b : CScript) : Nat → CScript → CScript × Nat
  | 0, pc => (pc, 0)
  | fuel + 1, pc =>
    if b.isPrefixOf pc then
      let (pc, nFound) := skipCopies b fuel (pc.drop b.length)
      (pc, nFound + 1)
    else (pc, 0)

def deleteCopies (b : CScript) : Nat → CScript → CScript × Nat
  | 0, pc => (pc, 0)
  | fuel + 1, pc =>
    let (pc, nFound) := skipCopies b pc.length pc
    match getScriptOp pc with
    -- at the end or at a malformed instruction the rest is kept as it is
    | none => (pc, nFound)
    | some (_, _, next) =>
      let (result, more) := deleteCopies b fuel next
      (pc.take (pc.length - next.length) ++ result, nFound + more)

/-- `FindAndDelete`: the script without the copies of `b`, and their number. -/
def findAndDelete (script b : CScript) : CScript × Nat :=
  if b = [] then (script, 0) else deleteCopies b (script.length + 1) script

end VBitcoin
