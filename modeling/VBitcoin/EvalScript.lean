import VBitcoin.ScriptEncodings

/-!
**The script interpreter** (`EvalScript` of `script/interpreter.cpp`) — a stack is a list with
its top first.  A `SignatureChecker` may keep a state, such as a counter or a cache, so the
interpreter is a program in `Exec`; all instructions but the four that check signatures are
plain `Except` programs inside it.
-/

namespace VBitcoin

/-! ### Opcodes and limits -/

def OP_1NEGATE : UInt8 := 0x4f
def OP_NOP : UInt8 := 0x61
def OP_IF : UInt8 := 0x63
def OP_NOTIF : UInt8 := 0x64
def OP_ELSE : UInt8 := 0x67
def OP_ENDIF : UInt8 := 0x68
def OP_VERIFY : UInt8 := 0x69
def OP_TOALTSTACK : UInt8 := 0x6b
def OP_FROMALTSTACK : UInt8 := 0x6c
def OP_2DROP : UInt8 := 0x6d
def OP_2DUP : UInt8 := 0x6e
def OP_3DUP : UInt8 := 0x6f
def OP_2OVER : UInt8 := 0x70
def OP_2ROT : UInt8 := 0x71
def OP_2SWAP : UInt8 := 0x72
def OP_IFDUP : UInt8 := 0x73
def OP_DEPTH : UInt8 := 0x74
def OP_DROP : UInt8 := 0x75
def OP_NIP : UInt8 := 0x77
def OP_OVER : UInt8 := 0x78
def OP_PICK : UInt8 := 0x79
def OP_ROLL : UInt8 := 0x7a
def OP_ROT : UInt8 := 0x7b
def OP_SWAP : UInt8 := 0x7c
def OP_TUCK : UInt8 := 0x7d
def OP_CAT : UInt8 := 0x7e
def OP_SUBSTR : UInt8 := 0x7f
def OP_LEFT : UInt8 := 0x80
def OP_RIGHT : UInt8 := 0x81
def OP_SIZE : UInt8 := 0x82
def OP_INVERT : UInt8 := 0x83
def OP_AND : UInt8 := 0x84
def OP_OR : UInt8 := 0x85
def OP_XOR : UInt8 := 0x86
def OP_1ADD : UInt8 := 0x8b
def OP_1SUB : UInt8 := 0x8c
def OP_2MUL : UInt8 := 0x8d
def OP_2DIV : UInt8 := 0x8e
def OP_NEGATE : UInt8 := 0x8f
def OP_ABS : UInt8 := 0x90
def OP_NOT : UInt8 := 0x91
def OP_0NOTEQUAL : UInt8 := 0x92
def OP_ADD : UInt8 := 0x93
def OP_SUB : UInt8 := 0x94
def OP_MUL : UInt8 := 0x95
def OP_DIV : UInt8 := 0x96
def OP_MOD : UInt8 := 0x97
def OP_LSHIFT : UInt8 := 0x98
def OP_RSHIFT : UInt8 := 0x99
def OP_BOOLAND : UInt8 := 0x9a
def OP_BOOLOR : UInt8 := 0x9b
def OP_NUMEQUAL : UInt8 := 0x9c
def OP_NUMEQUALVERIFY : UInt8 := 0x9d
def OP_NUMNOTEQUAL : UInt8 := 0x9e
def OP_LESSTHAN : UInt8 := 0x9f
def OP_GREATERTHAN : UInt8 := 0xa0
def OP_LESSTHANOREQUAL : UInt8 := 0xa1
def OP_GREATERTHANOREQUAL : UInt8 := 0xa2
def OP_MIN : UInt8 := 0xa3
def OP_MAX : UInt8 := 0xa4
def OP_WITHIN : UInt8 := 0xa5
def OP_RIPEMD160 : UInt8 := 0xa6
def OP_SHA1 : UInt8 := 0xa7
def OP_SHA256 : UInt8 := 0xa8
def OP_HASH256 : UInt8 := 0xaa
def OP_CODESEPARATOR : UInt8 := 0xab
def OP_NOP1 : UInt8 := 0xb0
def OP_CHECKLOCKTIMEVERIFY : UInt8 := 0xb1
def OP_CHECKSEQUENCEVERIFY : UInt8 := 0xb2
def OP_NOP4 : UInt8 := 0xb3
def OP_NOP10 : UInt8 := 0xb9

def MAX_SCRIPT_ELEMENT_SIZE : Nat := 520
def MAX_OPS_PER_SCRIPT : Nat := 201
def MAX_STACK_SIZE : Nat := 1000

/-! ### Stack operations -/

def vchFalse : Bytes := []
def vchTrue : Bytes := [1]

def invalidStack {α : Type} : ScriptRun α := setError .SCRIPT_ERR_INVALID_STACK_OPERATION

/-- The `VERIFY` form takes a true verdict off again and stops at a false one. -/
def pushVerdict (verify fSuccess : Bool) (error : ScriptError) (stack : List Bytes) :
    ScriptRun (List Bytes) :=
  if verify then if fSuccess then pure stack else setError error
  else pure ((if fSuccess then vchTrue else vchFalse) :: stack)

def stackOp (crypto : ScriptCrypto) (opcode : UInt8) (stack : List Bytes) :
    ScriptRun (List Bytes) :=
  if opcode = OP_2DROP then
    match stack with
    | _ :: _ :: rest => pure rest
    | _ => invalidStack
  else if opcode = OP_2DUP then
    match stack with
    | x2 :: x1 :: rest => pure (x2 :: x1 :: x2 :: x1 :: rest)
    | _ => invalidStack
  else if opcode = OP_3DUP then
    match stack with
    | x3 :: x2 :: x1 :: rest => pure (x3 :: x2 :: x1 :: x3 :: x2 :: x1 :: rest)
    | _ => invalidStack
  else if opcode = OP_2OVER then
    match stack with
    | x4 :: x3 :: x2 :: x1 :: rest => pure (x2 :: x1 :: x4 :: x3 :: x2 :: x1 :: rest)
    | _ => invalidStack
  else if opcode = OP_2ROT then
    match stack with
    | x6 :: x5 :: x4 :: x3 :: x2 :: x1 :: rest =>
      pure (x2 :: x1 :: x6 :: x5 :: x4 :: x3 :: rest)
    | _ => invalidStack
  else if opcode = OP_2SWAP then
    match stack with
    | x4 :: x3 :: x2 :: x1 :: rest => pure (x2 :: x1 :: x4 :: x3 :: rest)
    | _ => invalidStack
  else if opcode = OP_IFDUP then
    match stack with
    | vch :: rest => pure (if castToBool vch then vch :: vch :: rest else vch :: rest)
    | _ => invalidStack
  else if opcode = OP_DEPTH then
    pure (CScriptNum.getvch ⟨Int64.ofNat stack.length⟩ :: stack)
  else if opcode = OP_DROP then
    match stack with
    | _ :: rest => pure rest
    | _ => invalidStack
  else if opcode = OP_DUP then
    match stack with
    | vch :: rest => pure (vch :: vch :: rest)
    | _ => invalidStack
  else if opcode = OP_NIP then
    match stack with
    | x2 :: _ :: rest => pure (x2 :: rest)
    | _ => invalidStack
  else if opcode = OP_OVER then
    match stack with
    | x2 :: x1 :: rest => pure (x1 :: x2 :: x1 :: rest)
    | _ => invalidStack
  else if opcode = OP_ROT then
    match stack with
    | x3 :: x2 :: x1 :: rest => pure (x1 :: x3 :: x2 :: rest)
    | _ => invalidStack
  else if opcode = OP_SWAP then
    match stack with
    | x2 :: x1 :: rest => pure (x1 :: x2 :: rest)
    | _ => invalidStack
  else if opcode = OP_TUCK then
    match stack with
    | x2 :: x1 :: rest => pure (x2 :: x1 :: x2 :: rest)
    | _ => invalidStack
  else if opcode = OP_SIZE then
    match stack with
    | vch :: rest => pure (CScriptNum.getvch ⟨Int64.ofNat vch.length⟩ :: vch :: rest)
    | _ => invalidStack
  else if opcode = OP_EQUAL ∨ opcode = OP_EQUALVERIFY then
    match stack with
    | vch2 :: vch1 :: rest =>
      pushVerdict (opcode = OP_EQUALVERIFY) (vch1 = vch2) .SCRIPT_ERR_EQUALVERIFY rest
    | _ => invalidStack
  else if OP_RIPEMD160 ≤ opcode ∧ opcode ≤ OP_HASH256 then
    match stack with
    | vch :: rest =>
      pure ((if opcode = OP_RIPEMD160 then crypto.ripemd160 vch
        else if opcode = OP_SHA1 then crypto.sha1 vch
        else if opcode = OP_SHA256 then crypto.sha256 vch
        else if opcode = OP_HASH160 then crypto.hash160 vch
        else crypto.hash256 vch) :: rest)
    | _ => invalidStack
  else setError .SCRIPT_ERR_BAD_OPCODE

variable (fRequireMinimal : Bool)

def readNum (vch : Bytes) : ScriptRun CScriptNum :=
  CScriptNum.ofVch vch fRequireMinimal CScriptNum.nDefaultMaxNumSize

def pickOp (opcode : UInt8) : List Bytes → ScriptRun (List Bytes)
  | top :: second :: rest => do
    let n := (← readNum fRequireMinimal top).getint
    let stack := second :: rest
    if n < 0 then invalidStack
    else
      match stack[n.toNat]? with
      | none => invalidStack
      | some vch =>
        pure (vch :: if opcode = OP_ROLL then stack.eraseIdx n.toNat else stack)
  | _ => invalidStack

/-! ### Numeric operations -/

def unaryNum (opcode : UInt8) (bn : CScriptNum) : ScriptRun CScriptNum :=
  if opcode = OP_1ADD then bn.addAssign 1
  else if opcode = OP_1SUB then bn.subAssign 1
  else if opcode = OP_NEGATE then bn.neg
  else if opcode = OP_ABS then if bn.m_value < 0 then bn.neg else pure bn
  else if opcode = OP_NOT then pure (.ofBool (bn.m_value == 0))
  else pure (.ofBool (bn.m_value != 0))

def binaryNum (opcode : UInt8) (bn1 bn2 : CScriptNum) : CScriptNum :=
  let a := bn1.m_value
  let b := bn2.m_value
  if opcode = OP_ADD then ⟨a + b⟩
  else if opcode = OP_SUB then ⟨a - b⟩
  else if opcode = OP_BOOLAND then .ofBool (a != 0 && b != 0)
  else if opcode = OP_BOOLOR then .ofBool (a != 0 || b != 0)
  else if opcode = OP_NUMEQUAL ∨ opcode = OP_NUMEQUALVERIFY then .ofBool (a == b)
  else if opcode = OP_NUMNOTEQUAL then .ofBool (a != b)
  else if opcode = OP_LESSTHAN then .ofBool (a < b)
  else if opcode = OP_GREATERTHAN then .ofBool (b < a)
  else if opcode = OP_LESSTHANOREQUAL then .ofBool (a ≤ b)
  else if opcode = OP_GREATERTHANOREQUAL then .ofBool (b ≤ a)
  else if opcode = OP_MIN then if a < b then bn1 else bn2
  else if b < a then bn1 else bn2

def isUnaryNum (opcode : UInt8) : Bool :=
  opcode ∈ [OP_1ADD, OP_1SUB, OP_NEGATE, OP_ABS, OP_NOT, OP_0NOTEQUAL]

def isBinaryNum (opcode : UInt8) : Bool :=
  opcode ∈ [OP_ADD, OP_SUB, OP_BOOLAND, OP_BOOLOR, OP_NUMEQUAL, OP_NUMEQUALVERIFY,
    OP_NUMNOTEQUAL, OP_LESSTHAN, OP_GREATERTHAN, OP_LESSTHANOREQUAL, OP_GREATERTHANOREQUAL,
    OP_MIN, OP_MAX]

def unaryOp (opcode : UInt8) : List Bytes → ScriptRun (List Bytes)
  | top :: rest => do
    let bn ← readNum fRequireMinimal top
    let bn ← unaryNum opcode bn
    pure (bn.getvch :: rest)
  | _ => invalidStack

def binaryOp (opcode : UInt8) : List Bytes → ScriptRun (List Bytes)
  | x2 :: x1 :: rest => do
    let bn1 ← readNum fRequireMinimal x1
    let bn2 ← readNum fRequireMinimal x2
    let out := (binaryNum opcode bn1 bn2).getvch
    if opcode = OP_NUMEQUALVERIFY then
      if castToBool out then pure rest else setError .SCRIPT_ERR_NUMEQUALVERIFY
    else pure (out :: rest)
  | _ => invalidStack

def withinOp : List Bytes → ScriptRun (List Bytes)
  | x3 :: x2 :: x1 :: rest => do
    let bn1 ← readNum fRequireMinimal x1
    let bn2 ← readNum fRequireMinimal x2
    let bn3 ← readNum fRequireMinimal x3
    let fValue := bn2.m_value ≤ bn1.m_value && bn1.m_value < bn3.m_value
    pure ((if fValue then vchTrue else vchFalse) :: rest)
  | _ => invalidStack

/-! ### The state of a run and its signature checker -/

/-- Last elements first, and the script from the last separator on. -/
structure EvalState where
  stack : List Bytes
  altstack : List Bytes
  vfExec : List Bool
  nOpCount : Nat
  pbegincodehash : CScript
  deriving DecidableEq, Repr

/-- Whether the branches that are open are all taken. -/
def EvalState.fExec (st : EvalState) : Bool := st.vfExec.all id

/-- `BaseSignatureChecker`; checking a signature may change the checker's state. -/
structure SignatureChecker (σ : Type) where
  checkSig : Bytes → Bytes → CScript → SigVersion → StateM σ Bool
  checkLockTime : CScriptNum → Bool
  checkSequence : CScriptNum → Bool

section

variable {σ : Type} (crypto : ScriptCrypto) (checker : SignatureChecker σ) (flags : UInt32)
  (sigversion : SigVersion)

def requireMinimal : Bool := flagSet flags SCRIPT_VERIFY_MINIMALDATA

/-! ### Control -/

def lockTimeOperand : List Bytes → ScriptRun CScriptNum
  | [] => invalidStack
  | top :: _ => do
    let n ← CScriptNum.ofVch top (requireMinimal flags) 5
    demand (0 ≤ n.m_value) .SCRIPT_ERR_NEGATIVE_LOCKTIME
    pure n

def ifOp (opcode : UInt8) (st : EvalState) : ScriptRun EvalState :=
  if st.fExec then
    match st.stack with
    | [] => setError .SCRIPT_ERR_UNBALANCED_CONDITIONAL
    | vch :: rest => do
      whenSet flags SCRIPT_VERIFY_MINIMALIF
        (demand (sigversion ≠ .WITNESS_V0 || vch = [] || vch = [1]) .SCRIPT_ERR_MINIMALIF)
      let fValue := castToBool vch
      pure { st with
        stack := rest, vfExec := (if opcode = OP_NOTIF then !fValue else fValue) :: st.vfExec }
  else pure { st with vfExec := false :: st.vfExec }

/-- From `OP_NOP` to `OP_RETURN`, and from `OP_NOP1` to `OP_NOP10`. -/
def isControl (opcode : UInt8) : Bool :=
  (OP_NOP ≤ opcode && opcode ≤ OP_RETURN) || (OP_NOP1 ≤ opcode && opcode ≤ OP_NOP10)

/-- `OP_VER`, `OP_VERIF` and `OP_VERNOTIF` lie among them and are no instructions. -/
def controlOp (opcode : UInt8) (st : EvalState) : ScriptRun EvalState :=
  if opcode = OP_NOP then pure st
  else if opcode = OP_CHECKLOCKTIMEVERIFY then do
    -- without the flag this is the old `OP_NOP2`
    whenSet flags SCRIPT_VERIFY_CHECKLOCKTIMEVERIFY do
      let nLockTime ← lockTimeOperand flags st.stack
      demand (checker.checkLockTime nLockTime) .SCRIPT_ERR_UNSATISFIED_LOCKTIME
    pure st
  else if opcode = OP_CHECKSEQUENCEVERIFY then do
    whenSet flags SCRIPT_VERIFY_CHECKSEQUENCEVERIFY do
      let nSequence ← lockTimeOperand flags st.stack
      demand ((nSequence.and SEQUENCE_LOCKTIME_DISABLE_FLAG).m_value ≠ 0 ||
        checker.checkSequence nSequence) .SCRIPT_ERR_UNSATISFIED_LOCKTIME
    pure st
  else if opcode = OP_NOP1 ∨ (OP_NOP4 ≤ opcode ∧ opcode ≤ OP_NOP10) then do
    whenSet flags SCRIPT_VERIFY_DISCOURAGE_UPGRADABLE_NOPS
      (setError .SCRIPT_ERR_DISCOURAGE_UPGRADABLE_NOPS)
    pure st
  else if opcode = OP_IF ∨ opcode = OP_NOTIF then ifOp flags sigversion opcode st
  else if opcode = OP_ELSE then
    match st.vfExec with
    | [] => setError .SCRIPT_ERR_UNBALANCED_CONDITIONAL
    | fValue :: vfExec => pure { st with vfExec := (!fValue) :: vfExec }
  else if opcode = OP_ENDIF then
    match st.vfExec with
    | [] => setError .SCRIPT_ERR_UNBALANCED_CONDITIONAL
    | _ :: vfExec => pure { st with vfExec := vfExec }
  else if opcode = OP_VERIFY then
    match st.stack with
    | [] => invalidStack
    | vch :: rest =>
      if castToBool vch then pure { st with stack := rest } else setError .SCRIPT_ERR_VERIFY
  else if opcode = OP_RETURN then setError .SCRIPT_ERR_OP_RETURN
  else setError .SCRIPT_ERR_BAD_OPCODE

end

section

variable {σ : Type} (crypto : ScriptCrypto) (checker : SignatureChecker σ) (flags : UInt32)
  (sigversion : SigVersion)

/-! ### Checking signatures -/

/-- Drop a signature from the script code of a pre-segwit script. -/
def dropSignature (scriptCode : CScript) (vchSig : Bytes) : ScriptRun CScript :=
  match sigversion with
  | .BASE => do
    let (result, found) := findAndDelete scriptCode (pushBytes vchSig)
    whenSet flags SCRIPT_VERIFY_CONST_SCRIPTCODE
      (demand (found = 0) .SCRIPT_ERR_SIG_FINDANDDELETE)
    pure result
  | .WITNESS_V0 => pure scriptCode

/-- One call of `CheckSig`, after the encodings of its arguments are checked. -/
def checkOneSig (scriptCode : CScript) (vchSig vchPubKey : Bytes) : Exec ScriptFailure σ Bool := do
  checkSignatureEncoding crypto vchSig flags
  checkPubKeyEncoding vchPubKey flags sigversion
  checker.checkSig vchSig vchPubKey scriptCode sigversion

variable (opcode : UInt8)

def checkSigOp (pbegincodehash : CScript) : List Bytes → Exec ScriptFailure σ (List Bytes)
  | vchPubKey :: vchSig :: rest => do
    let scriptCode ← dropSignature flags sigversion pbegincodehash vchSig
    let fSuccess ← checkOneSig crypto checker flags sigversion scriptCode vchSig vchPubKey
    whenSet flags SCRIPT_VERIFY_NULLFAIL
      (demand (fSuccess || vchSig = []) .SCRIPT_ERR_SIG_NULLFAIL)
    pushVerdict (opcode = OP_CHECKSIGVERIFY) fSuccess .SCRIPT_ERR_CHECKSIGVERIFY rest
  | _ => liftM (invalidStack : ScriptRun (List Bytes))

/-- Each round takes a key, and a signature that matches it. -/
def multisigLoop (scriptCode : CScript) :
    List Bytes → List Bytes → Exec ScriptFailure σ Bool
  | _, [] => pure true
  | keys, vchSig :: sigs =>
    match keys with
    | [] => pure false
    | vchPubKey :: keys => do
      let fOk ← checkOneSig crypto checker flags sigversion scriptCode vchSig vchPubKey
      let left := if fOk then sigs else vchSig :: sigs
      if keys.length < left.length then pure false else multisigLoop scriptCode keys left

/-- After a failure with `NULLFAIL` the signatures must be empty. -/
def popArguments (mustBeNull : Bool) : Nat → Nat → List Bytes → ScriptRun (List Bytes)
  | 0, _, stack => pure stack
  | _ + 1, _, [] => setError .SCRIPT_ERR_UNKNOWN_ERROR
  | n + 1, ikey2, top :: stack => do
    demand (!(mustBeNull && ikey2 = 0 && top ≠ [])) .SCRIPT_ERR_SIG_NULLFAIL
    popArguments mustBeNull n (ikey2 - 1) stack

def multisigCounts (nOpCount : Nat) (stack : List Bytes) : ScriptRun (Nat × Nat) := do
  demand (1 ≤ stack.length) .SCRIPT_ERR_INVALID_STACK_OPERATION
  let nKeysCount := (← readNum (requireMinimal flags) (stack.getD 0 [])).getint
  demand (0 ≤ nKeysCount && nKeysCount ≤ MAX_PUBKEYS_PER_MULTISIG) .SCRIPT_ERR_PUBKEY_COUNT
  let nKeys := nKeysCount.toNat
  demand (nOpCount + nKeys ≤ MAX_OPS_PER_SCRIPT) .SCRIPT_ERR_OP_COUNT
  demand (nKeys + 2 ≤ stack.length) .SCRIPT_ERR_INVALID_STACK_OPERATION
  let nSigsCount := (← readNum (requireMinimal flags) (stack.getD (nKeys + 1) [])).getint
  demand (0 ≤ nSigsCount && nSigsCount ≤ nKeysCount) .SCRIPT_ERR_SIG_COUNT
  let nSigs := nSigsCount.toNat
  demand (nKeys + nSigs + 3 ≤ stack.length) .SCRIPT_ERR_INVALID_STACK_OPERATION
  pure (nKeys, nSigs)

/-- The arguments and one element more go, and the verdict is pushed. -/
def multisigResult (nKeys nSigs : Nat) (fSuccess : Bool) (stack : List Bytes) :
    ScriptRun (List Bytes) := do
  let stack ← popArguments (!fSuccess && flagSet flags SCRIPT_VERIFY_NULLFAIL)
    (nKeys + nSigs + 2) (nKeys + 2) stack
  match stack with
  | [] => invalidStack
  | dummy :: rest => do
    whenSet flags SCRIPT_VERIFY_NULLDUMMY (demand (dummy = []) .SCRIPT_ERR_SIG_NULLDUMMY)
    pushVerdict (opcode = OP_CHECKMULTISIGVERIFY) fSuccess .SCRIPT_ERR_CHECKMULTISIGVERIFY rest

def checkMultiSigOp (st : EvalState) : Exec ScriptFailure σ EvalState := do
  let (nKeys, nSigs) ← multisigCounts flags st.nOpCount st.stack
  let keys := (st.stack.drop 1).take nKeys
  let sigs := (st.stack.drop (nKeys + 2)).take nSigs
  let scriptCode ← (sigs.foldlM (dropSignature flags sigversion) st.pbegincodehash :
    ScriptRun CScript)
  let fSuccess ← multisigLoop crypto checker flags sigversion scriptCode keys sigs
  let stack ← multisigResult flags opcode nKeys nSigs fSuccess st.stack
  pure { st with stack := stack, nOpCount := st.nOpCount + nKeys }

/-! ### The interpreter -/

def isPushNumber : Bool :=
  opcode = OP_1NEGATE || (OP_1 ≤ opcode && opcode ≤ OP_16)

def pushedNumber : Bytes :=
  CScriptNum.getvch ⟨Int64.ofInt (opcode.toNat - (OP_1.toNat - 1 : Nat))⟩

/-- The instructions that change nothing but the main stack. -/
def evalStackOp (st : EvalState) : Exec ScriptFailure σ (List Bytes) :=
  if opcode = OP_CHECKSIG ∨ opcode = OP_CHECKSIGVERIFY then
    checkSigOp crypto checker flags sigversion opcode st.pbegincodehash st.stack
  else if opcode = OP_PICK ∨ opcode = OP_ROLL then
    liftM (pickOp (requireMinimal flags) opcode st.stack)
  else if isUnaryNum opcode then liftM (unaryOp (requireMinimal flags) opcode st.stack)
  else if isBinaryNum opcode then liftM (binaryOp (requireMinimal flags) opcode st.stack)
  else if opcode = OP_WITHIN then liftM (withinOp (requireMinimal flags) st.stack)
  else liftM (stackOp crypto opcode st.stack)

/-- The `switch` over the opcode; `pc` is the script after the instruction. -/
def evalOp (pc : CScript) (st : EvalState) : Exec ScriptFailure σ EvalState :=
  if isPushNumber opcode then pure { st with stack := pushedNumber opcode :: st.stack }
  else if isControl opcode then liftM (controlOp checker flags sigversion opcode st)
  else if opcode = OP_TOALTSTACK then
    match st.stack with
    | [] => liftM (invalidStack : ScriptRun EvalState)
    | vch :: rest => pure { st with stack := rest, altstack := vch :: st.altstack }
  else if opcode = OP_FROMALTSTACK then
    match st.altstack with
    | [] => liftM (setError .SCRIPT_ERR_INVALID_ALTSTACK_OPERATION : ScriptRun EvalState)
    | vch :: rest => pure { st with stack := vch :: st.stack, altstack := rest }
  else if opcode = OP_CODESEPARATOR then pure { st with pbegincodehash := pc }
  else if opcode = OP_CHECKMULTISIG ∨ opcode = OP_CHECKMULTISIGVERIFY then
    checkMultiSigOp crypto checker flags sigversion opcode st
  else do
    let stack ← evalStackOp crypto checker flags sigversion opcode st
    pure { st with stack := stack }

def isDisabled : Bool :=
  opcode ∈ [OP_CAT, OP_SUBSTR, OP_LEFT, OP_RIGHT, OP_INVERT, OP_AND, OP_OR, OP_XOR, OP_2MUL,
    OP_2DIV, OP_MUL, OP_DIV, OP_MOD, OP_LSHIFT, OP_RSHIFT]

variable (vchPushValue : Bytes)

/-- Checked even if not executed; the result is the new `nOpCount`. -/
def checkInstruction (nOpCount : Nat) : ScriptRun Nat := do
  demand (vchPushValue.length ≤ MAX_SCRIPT_ELEMENT_SIZE) .SCRIPT_ERR_PUSH_SIZE
  let nOpCount := if OP_16 < opcode then nOpCount + 1 else nOpCount
  demand (opcode ≤ OP_16 || nOpCount ≤ MAX_OPS_PER_SCRIPT) .SCRIPT_ERR_OP_COUNT
  demand (!isDisabled opcode) .SCRIPT_ERR_DISABLED_OPCODE
  whenSet flags SCRIPT_VERIFY_CONST_SCRIPTCODE
    (demand (opcode ≠ OP_CODESEPARATOR || sigversion ≠ .BASE) .SCRIPT_ERR_OP_CODESEPARATOR)
  pure nOpCount

def execInstruction (pc : CScript) (st : EvalState) : Exec ScriptFailure σ EvalState :=
  if st.fExec ∧ opcode ≤ OP_PUSHDATA4 then do
    demand (!requireMinimal flags || checkMinimalPush vchPushValue opcode)
      .SCRIPT_ERR_MINIMALDATA
    pure { st with stack := vchPushValue :: st.stack }
  else if st.fExec ∨ (OP_IF ≤ opcode ∧ opcode ≤ OP_ENDIF) then
    evalOp crypto checker flags sigversion opcode pc st
  else pure st

def evalStep (pc : CScript) (st : EvalState) : Exec ScriptFailure σ EvalState := do
  let nOpCount ← checkInstruction flags sigversion opcode vchPushValue st.nOpCount
  let st ← execInstruction crypto checker flags sigversion opcode vchPushValue pc
    { st with nOpCount := nOpCount }
  demand (st.stack.length + st.altstack.length ≤ MAX_STACK_SIZE) .SCRIPT_ERR_STACK_SIZE
  pure st

def evalLoop : Nat → CScript → EvalState → Exec ScriptFailure σ EvalState
  | 0, _, st => pure st
  | fuel + 1, pc, st =>
    if pc.isEmpty then pure st
    else
      match getScriptOp pc with
      | none => liftM (setError .SCRIPT_ERR_BAD_OPCODE : ScriptRun EvalState)
      | some (opcode, vchPushValue, pc) => do
        let st ← evalStep crypto checker flags sigversion opcode vchPushValue pc st
        evalLoop fuel pc st

/-- An instruction takes a byte: the length is enough fuel. -/
def evalScript (script : CScript) (stack : List Bytes) : Exec ScriptFailure σ (List Bytes) := do
  demand (script.length ≤ MAX_SCRIPT_SIZE) .SCRIPT_ERR_SCRIPT_SIZE
  let st ← evalLoop crypto checker flags sigversion script.length script
    ⟨stack, [], [], 0, script⟩
  demand st.vfExec.isEmpty .SCRIPT_ERR_UNBALANCED_CONDITIONAL
  pure st.stack

end

end VBitcoin
