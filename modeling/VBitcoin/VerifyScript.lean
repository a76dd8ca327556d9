import VBitcoin.EvalScript

/-!
**Verifying a spend** (`VerifyScript` and `VerifyWitnessProgram` of `script/interpreter.cpp`).
What a successful verification returns here is which further scripts it ran, so that they can
be compared with the scripts other code takes them for.
-/

namespace VBitcoin

/-- The scripts a verification ran besides `scriptSig` and `scriptPubKey`. -/
structure Executed where
  redeemScript : Option CScript := none
  witnessScript : Option CScript := none
  deriving DecidableEq, Repr

def payToPubkeyHash (program : Bytes) : CScript :=
  [OP_DUP, OP_HASH160] ++ pushBytes program ++ [OP_EQUALVERIFY, OP_CHECKSIG]

section

variable {σ : Type} (crypto : ScriptCrypto) (checker : SignatureChecker σ) (flags : UInt32)

/-- The script of a version 0 witness program and the stack it is run on. -/
def witnessScriptOf (program : Bytes) (witness : List Bytes) : ScriptRun (CScript × List Bytes) :=
  if program.length = 32 then
    match witness.getLast? with
    | none => setError .SCRIPT_ERR_WITNESS_PROGRAM_WITNESS_EMPTY
    | some script => do
      demand (crypto.sha256 script = program) .SCRIPT_ERR_WITNESS_PROGRAM_MISMATCH
      pure (script, witness.dropLast.reverse)
  else if program.length = 20 then do
    demand (witness.length = 2) .SCRIPT_ERR_WITNESS_PROGRAM_MISMATCH
    pure (payToPubkeyHash program, witness.reverse)
  else setError .SCRIPT_ERR_WITNESS_PROGRAM_WRONG_LENGTH

/-- `if (stack.empty() || !CastToBool(stack.back())) return set_error(…)`. -/
def demandTrue (stack : List Bytes) : ScriptRun Unit :=
  demand (castToBool (stack.headD [])) .SCRIPT_ERR_EVAL_FALSE

/-- `VerifyWitnessProgram`: the script it ran, none for a version above 0. -/
def verifyWitnessProgram (witversion : Nat) (program : Bytes) (witness : List Bytes) :
    Exec ScriptFailure σ (Option CScript) :=
  if witversion = 0 then do
    let (script, stack) ← witnessScriptOf crypto program witness
    demand (stack.all fun item => item.length ≤ MAX_SCRIPT_ELEMENT_SIZE) .SCRIPT_ERR_PUSH_SIZE
    let stack ← evalScript crypto checker flags .WITNESS_V0 script stack
    demand (stack.length = 1) .SCRIPT_ERR_CLEANSTACK
    demandTrue stack
    pure (some script)
  else do
    whenSet flags SCRIPT_VERIFY_DISCOURAGE_UPGRADABLE_WITNESS_PROGRAM
      (setError .SCRIPT_ERR_DISCOURAGE_UPGRADABLE_WITNESS_PROGRAM)
    pure none

/-- The stack, `hadWitness` and the scripts that were run. -/
structure Verified where
  stack : List Bytes
  hadWitness : Bool := false
  executed : Executed := {}
  deriving DecidableEq, Repr

/-- A bare or nested witness program; `exact`: `scriptSig` holds nothing else. -/
def verifyWitness (script : CScript) (exact : Bool) (malleated : ScriptError)
    (witness : List Bytes) (v : Verified) : Exec ScriptFailure σ Verified :=
  if flagSet flags SCRIPT_VERIFY_WITNESS then
    match isWitnessProgram script with
    | none => pure v
    | some (witversion, program) => do
      demand exact malleated
      let witnessScript ← verifyWitnessProgram crypto checker flags witversion program witness
      -- `stack.resize(1)`, which bypasses the clean stack check at the end
      pure { v with
        stack := v.stack.drop (v.stack.length - 1)
        hadWitness := true
        executed := { v.executed with witnessScript := witnessScript } }
  else pure v

/-- The redeem script, run on the rest of the stack that `scriptSig` left. -/
def verifyRedeem (scriptSig : CScript) (witness : List Bytes) (v : Verified) :
    List Bytes → Exec ScriptFailure σ Verified
  | [] => liftM (.error (.assertion "!stack.empty()") : ScriptRun Verified)
  | pubKey2 :: rest => do
    let stack ← evalScript crypto checker flags .BASE pubKey2 rest
    demandTrue stack
    verifyWitness crypto checker flags pubKey2 (scriptSig = pushBytes pubKey2)
      .SCRIPT_ERR_WITNESS_MALLEATED_P2SH witness
      { v with stack := stack, executed := { v.executed with redeemScript := some pubKey2 } }

variable (scriptSig scriptPubKey : CScript)

/-- The additional validation of a spend of a pay-to-script-hash output. -/
def verifyP2SH (stackCopy witness : List Bytes) (v : Verified) : Exec ScriptFailure σ Verified :=
  if flagSet flags SCRIPT_VERIFY_P2SH && isPayToScriptHash scriptPubKey then do
    demand (isPushOnly scriptSig) .SCRIPT_ERR_SIG_PUSHONLY
    verifyRedeem crypto checker flags scriptSig witness v stackCopy
  else pure v

def verifyEnd (witness : List Bytes) (v : Verified) : ScriptRun Unit := do
  whenSet flags SCRIPT_VERIFY_CLEANSTACK do
    require (flagSet flags SCRIPT_VERIFY_P2SH) (.assertion "(flags & SCRIPT_VERIFY_P2SH) != 0")
    require (flagSet flags SCRIPT_VERIFY_WITNESS)
      (.assertion "(flags & SCRIPT_VERIFY_WITNESS) != 0")
    demand (v.stack.length = 1) .SCRIPT_ERR_CLEANSTACK
  whenSet flags SCRIPT_VERIFY_WITNESS do
    require (flagSet flags SCRIPT_VERIFY_P2SH) (.assertion "(flags & SCRIPT_VERIFY_P2SH) != 0")
    demand (v.hadWitness || witness = []) .SCRIPT_ERR_WITNESS_UNEXPECTED

/-- `VerifyScript`; a null witness is the empty one. -/
def verifyScript (witness : List Bytes) : Exec ScriptFailure σ Executed := do
  whenSet flags SCRIPT_VERIFY_SIGPUSHONLY
    (demand (isPushOnly scriptSig) .SCRIPT_ERR_SIG_PUSHONLY)
  let stackCopy ← evalScript crypto checker flags .BASE scriptSig []
  let stack ← evalScript crypto checker flags .BASE scriptPubKey stackCopy
  demandTrue stack
  let v ← verifyWitness crypto checker flags scriptPubKey scriptSig.isEmpty
    .SCRIPT_ERR_WITNESS_MALLEATED witness { stack := stack }
  let v ← verifyP2SH crypto checker flags scriptSig scriptPubKey stackCopy witness v
  verifyEnd flags witness v
  pure v.executed

end

/-- `VerifyScript` with a checker that keeps no state returns true. -/
def verifies (crypto : ScriptCrypto) (checker : SignatureChecker Unit) (flags : UInt32)
    (scriptSig scriptPubKey : CScript) (witness : List Bytes) : Bool :=
  ((verifyScript crypto checker flags scriptSig scriptPubKey witness).runOn ()).1.isOk

theorem verifies_iff {crypto : ScriptCrypto} {checker : SignatureChecker Unit} {flags : UInt32}
    {scriptSig scriptPubKey : CScript} {witness : List Bytes} :
    verifies crypto checker flags scriptSig scriptPubKey witness = true ↔
      ∃ executed, (verifyScript crypto checker flags scriptSig scriptPubKey witness).runOn () =
        (.ok executed, ()) := by
  rw [verifies]
  rcases (verifyScript crypto checker flags scriptSig scriptPubKey witness).runOn () with
    ⟨outcome, _⟩
  cases outcome with
  | error e => simp [Except.isOk, Except.toBool]
  | ok executed => simp [Except.isOk, Except.toBool]

/-! ### A nested spend

One of two keys, in a witness script whose program is the redeem script of a
pay-to-script-hash output.  The hashes of the test only keep the first bytes. -/

namespace Regtest

def scriptCrypto : ScriptCrypto where
  ripemd160 bytes := (bytes ++ List.replicate 20 0).take 20
  sha1 bytes := (bytes ++ List.replicate 20 0).take 20
  sha256 bytes := (bytes ++ List.replicate 32 0).take 32
  checkLowS _ := true

def firstKey : Bytes := 0x02 :: List.replicate 32 0xaa
def secondKey : Bytes := 0x03 :: List.replicate 32 0xbb

/-- A checker for which every signature is one of the second key. -/
def secondKeyOnly : SignatureChecker Unit where
  checkSig _ vchPubKey _ _ := pure (vchPubKey = secondKey)
  checkLockTime _ := false
  checkSequence _ := false

def shortSignature : Bytes := [0x30, 6, 2, 1, 1, 2, 1, 1, 1]

def oneOfTwo : CScript :=
  [OP_1] ++ pushBytes secondKey ++ pushBytes firstKey ++ [0x52, OP_CHECKMULTISIG]

def nestedRedeemScript : CScript := OP_0 :: pushBytes (scriptCrypto.sha256 oneOfTwo)
def nestedScriptSig : CScript := pushBytes nestedRedeemScript
def nestedScriptPubKey : CScript :=
  [OP_HASH160] ++ pushBytes (scriptCrypto.hash160 nestedRedeemScript) ++ [OP_EQUAL]
def nestedWitness : List Bytes := [[], shortSignature, oneOfTwo]

end Regtest

end VBitcoin
