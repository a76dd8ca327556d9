import VBitcoin.VerifyScript

/-!
**Verification flags only restrict** (the soft fork rule of `script/interpreter.h`) — as long
as the run under more flags does not stop, the other one is in the same state: each
instruction is one lemma of this form.  Only in `VerifyScript` do the two runs differ, where a
flag decides whether a script is run at all.
-/

namespace VBitcoin

open Exec

/-! ### Checks that depend on flags -/

section

variable {weak strict : UInt32} (hflags : FlagsWithin weak strict)

include hflags

theorem requireMinimal_mono (h : requireMinimal weak = true) : requireMinimal strict = true :=
  flagSet_mono hflags h

variable {check check' : ScriptRun Unit}

theorem whenSet_mono_of {mask : UInt32} (h : flagSet weak mask = true → OkImplies check check') :
    OkImplies (whenSet strict mask check) (whenSet weak mask check') := by
  intro u hstrict
  cases hset : flagSet weak mask with
  | false =>
    rw [whenSet, hset]
    rfl
  | true =>
    rw [whenSet, flagSet_mono hflags hset] at hstrict
    rw [whenSet, hset]
    exact h hset u hstrict

theorem whenSet_mono (h : OkImplies check check')
    (mask : UInt32) : OkImplies (whenSet strict mask check) (whenSet weak mask check') :=
  whenSet_mono_of hflags fun _ => h

theorem readNum_mono (vch : Bytes) :
    OkImplies (readNum (requireMinimal strict) vch) (readNum (requireMinimal weak) vch) :=
  ofVch_mono vch _ (requireMinimal_mono hflags)

theorem checkSignatureEncoding_mono (crypto : ScriptCrypto) (vchSig : Bytes) :
    OkImplies (checkSignatureEncoding crypto vchSig strict)
      (checkSignatureEncoding crypto vchSig weak) := by
  apply okImplies_ite (.refl _)
  apply okImplies_bind (whenSet_mono hflags (.refl _) _)
  intro _
  apply okImplies_bind (whenSet_mono hflags (.refl _) _)
  intro _
  exact whenSet_mono hflags (.refl _) _

theorem checkPubKeyEncoding_mono (vchPubKey : Bytes) (sigversion : SigVersion) :
    OkImplies (checkPubKeyEncoding vchPubKey strict sigversion)
      (checkPubKeyEncoding vchPubKey weak sigversion) := by
  apply okImplies_bind (whenSet_mono hflags (.refl _) _)
  intro _
  exact whenSet_mono hflags (.refl _) _

/-! ### Instructions that check no signature -/

theorem pickOp_mono (opcode : UInt8) (stack : List Bytes) :
    OkImplies (pickOp (requireMinimal strict) opcode stack)
      (pickOp (requireMinimal weak) opcode stack) := by
  match stack with
  | [] => exact .refl _
  | [_] => exact .refl _
  | top :: second :: rest => exact okImplies_bind (readNum_mono hflags top) fun _ => .refl _

theorem unaryOp_mono (opcode : UInt8) (stack : List Bytes) :
    OkImplies (unaryOp (requireMinimal strict) opcode stack)
      (unaryOp (requireMinimal weak) opcode stack) := by
  match stack with
  | [] => exact .refl _
  | top :: rest => exact okImplies_bind (readNum_mono hflags top) fun _ => .refl _

theorem binaryOp_mono (opcode : UInt8) (stack : List Bytes) :
    OkImplies (binaryOp (requireMinimal strict) opcode stack)
      (binaryOp (requireMinimal weak) opcode stack) := by
  match stack with
  | [] => exact .refl _
  | [_] => exact .refl _
  | x2 :: x1 :: rest =>
    apply okImplies_bind (readNum_mono hflags x1)
    intro _
    exact okImplies_bind (readNum_mono hflags x2) fun _ => .refl _

theorem withinOp_mono (stack : List Bytes) :
    OkImplies (withinOp (requireMinimal strict) stack) (withinOp (requireMinimal weak) stack) := by
  match stack with
  | [] => exact .refl _
  | [_] => exact .refl _
  | [_, _] => exact .refl _
  | x3 :: x2 :: x1 :: rest =>
    apply okImplies_bind (readNum_mono hflags x1)
    intro _
    apply okImplies_bind (readNum_mono hflags x2)
    intro _
    exact okImplies_bind (readNum_mono hflags x3) fun _ => .refl _

theorem lockTimeOperand_mono (stack : List Bytes) :
    OkImplies (lockTimeOperand strict stack) (lockTimeOperand weak stack) := by
  match stack with
  | [] => exact .refl _
  | top :: rest =>
    exact okImplies_bind (ofVch_mono top 5 (requireMinimal_mono hflags)) fun _ => .refl _

theorem ifOp_mono (sigversion : SigVersion) (opcode : UInt8) (st : EvalState) :
    OkImplies (ifOp strict sigversion opcode st) (ifOp weak sigversion opcode st) := by
  apply okImplies_ite _ (.refl _)
  match st.stack with
  | [] => exact .refl _
  | vch :: rest => exact okImplies_bind (whenSet_mono hflags (.refl _) _) fun _ => .refl _

theorem checkInstruction_mono (sigversion : SigVersion) (opcode : UInt8) (vchPushValue : Bytes)
    (nOpCount : Nat) :
    OkImplies (checkInstruction strict sigversion opcode vchPushValue nOpCount)
      (checkInstruction weak sigversion opcode vchPushValue nOpCount) := by
  apply okImplies_bind (.refl _)
  intro _
  apply okImplies_bind (.refl _)
  intro _
  apply okImplies_bind (.refl _)
  intro _
  exact okImplies_bind (whenSet_mono hflags (.refl _) _) fun _ => .refl _

theorem dropSignature_mono (sigversion : SigVersion) (scriptCode : CScript) (vchSig : Bytes) :
    OkImplies (dropSignature strict sigversion scriptCode vchSig)
      (dropSignature weak sigversion scriptCode vchSig) := by
  cases sigversion with
  | BASE => exact okImplies_bind (whenSet_mono hflags (.refl _) _) fun _ => .refl _
  | WITNESS_V0 => exact .refl _

theorem dropSignatures_mono (sigversion : SigVersion) :
    ∀ (sigs : List Bytes) (scriptCode : CScript),
      OkImplies (sigs.foldlM (dropSignature strict sigversion) scriptCode)
        (sigs.foldlM (dropSignature weak sigversion) scriptCode)
  | [], _ => .refl _
  | vchSig :: sigs, scriptCode =>
      okImplies_bind (dropSignature_mono hflags sigversion scriptCode vchSig) fun code =>
        dropSignatures_mono sigversion sigs code

end

/-! ### Instructions that check signatures -/

theorem popArguments_mono {strict weak : Bool} (h : weak = true → strict = true) :
    ∀ (n ikey2 : Nat) (stack : List Bytes),
      OkImplies (popArguments strict n ikey2 stack) (popArguments weak n ikey2 stack)
  | 0, _, _ => .refl _
  | _ + 1, _, [] => .refl _
  | n + 1, ikey2, top :: stack => by
      apply okImplies_bind (okImplies_require _) fun _ =>
        popArguments_mono h n (ikey2 - 1) stack
      cases weak with
      | false => simp
      | true =>
        rw [h rfl]
        exact id

/-- They answer alike from related states and leave related ones. -/
structure CheckersAgree {σ τ : Type} (R : σ → τ → Prop) (c : SignatureChecker σ)
    (d : SignatureChecker τ) : Prop where
  checkSig : ∀ vchSig vchPubKey scriptCode sigversion s t, R s t →
    ((c.checkSig vchSig vchPubKey scriptCode sigversion).run s).1 =
        ((d.checkSig vchSig vchPubKey scriptCode sigversion).run t).1 ∧
      R ((c.checkSig vchSig vchPubKey scriptCode sigversion).run s).2
        ((d.checkSig vchSig vchPubKey scriptCode sigversion).run t).2
  checkLockTime : c.checkLockTime = d.checkLockTime
  checkSequence : c.checkSequence = d.checkSequence

section

variable {weak strict : UInt32} (hflags : FlagsWithin weak strict)

include hflags

theorem multisigCounts_mono (nOpCount : Nat) (stack : List Bytes) :
    OkImplies (multisigCounts strict nOpCount stack) (multisigCounts weak nOpCount stack) := by
  apply okImplies_bind (.refl _)
  intro _
  apply okImplies_bind (readNum_mono hflags _)
  intro _
  apply okImplies_bind (.refl _)
  intro _
  apply okImplies_bind (.refl _)
  intro _
  apply okImplies_bind (.refl _)
  intro _
  exact okImplies_bind (readNum_mono hflags _) fun _ => .refl _

theorem multisigResult_mono (opcode : UInt8) (nKeys nSigs : Nat) (fSuccess : Bool)
    (stack : List Bytes) :
    OkImplies (multisigResult strict opcode nKeys nSigs fSuccess stack)
      (multisigResult weak opcode nKeys nSigs fSuccess stack) := by
  apply okImplies_bind (popArguments_mono _ _ _ _)
  · intro stack
    match stack with
    | [] => exact .refl _
    | dummy :: rest => exact okImplies_bind (whenSet_mono hflags (.refl _) _) fun _ => .refl _
  · intro hweak
    rw [Bool.and_eq_true] at hweak ⊢
    exact ⟨hweak.1, flagSet_mono hflags hweak.2⟩

variable {σ τ : Type} {R : σ → τ → Prop} {c : SignatureChecker σ} {d : SignatureChecker τ}
  (hagree : CheckersAgree R c d) (crypto : ScriptCrypto) (sigversion : SigVersion)

include hagree

theorem checkOneSig_implies (scriptCode : CScript) (vchSig vchPubKey : Bytes) :
    Implies R (checkOneSig crypto c strict sigversion scriptCode vchSig vchPubKey)
      (checkOneSig crypto d weak sigversion scriptCode vchSig vchPubKey) := by
  apply implies_bind (implies_lift (checkSignatureEncoding_mono hflags crypto vchSig))
  intro _
  apply implies_bind (implies_lift (checkPubKeyEncoding_mono hflags vchPubKey sigversion))
  intro _
  exact implies_state (hagree.checkSig vchSig vchPubKey scriptCode sigversion)

theorem checkSigOp_implies (opcode : UInt8) (pbegincodehash : CScript) (stack : List Bytes) :
    Implies R (checkSigOp crypto c strict sigversion opcode pbegincodehash stack)
      (checkSigOp crypto d weak sigversion opcode pbegincodehash stack) := by
  match stack with
  | [] => exact implies_lift (.refl _)
  | [_] => exact implies_lift (.refl _)
  | vchPubKey :: vchSig :: rest =>
    apply implies_bind (implies_lift (dropSignature_mono hflags sigversion _ vchSig))
    intro scriptCode
    apply implies_bind
      (checkOneSig_implies hflags hagree crypto sigversion scriptCode vchSig vchPubKey)
    intro fSuccess
    apply implies_bind (implies_lift (whenSet_mono hflags (.refl _) _))
    intro _
    exact implies_lift (.refl _)

theorem multisigLoop_implies (scriptCode : CScript) : ∀ (keys sigs : List Bytes),
    Implies R (multisigLoop crypto c strict sigversion scriptCode keys sigs)
      (multisigLoop crypto d weak sigversion scriptCode keys sigs)
  | keys, [] => by
      rw [multisigLoop, multisigLoop]
      exact implies_pure true
  | [], vchSig :: sigs => by
      rw [multisigLoop, multisigLoop]
      exact implies_pure false
  | vchPubKey :: keys, vchSig :: sigs => by
      rw [multisigLoop, multisigLoop]
      apply implies_bind
        (checkOneSig_implies hflags hagree crypto sigversion scriptCode vchSig vchPubKey)
      intro fOk
      exact implies_ite (implies_pure false) (multisigLoop_implies scriptCode keys _)

theorem checkMultiSigOp_implies (opcode : UInt8) (st : EvalState) :
    Implies R (checkMultiSigOp crypto c strict sigversion opcode st)
      (checkMultiSigOp crypto d weak sigversion opcode st) := by
  apply implies_bind (implies_lift (multisigCounts_mono hflags st.nOpCount st.stack))
  intro ⟨nKeys, nSigs⟩
  apply implies_bind (implies_lift (dropSignatures_mono hflags sigversion _ st.pbegincodehash))
  intro scriptCode
  apply implies_bind (multisigLoop_implies hflags hagree crypto sigversion scriptCode _ _)
  intro fSuccess
  apply implies_bind
    (implies_lift (multisigResult_mono hflags opcode nKeys nSigs fSuccess st.stack))
  intro stack
  exact implies_pure _

/-! ### The interpreter -/

theorem controlOp_mono (opcode : UInt8) (st : EvalState) :
    OkImplies (controlOp c strict sigversion opcode st)
      (controlOp d weak sigversion opcode st) := by
  unfold controlOp
  rw [hagree.checkLockTime, hagree.checkSequence]
  apply okImplies_ite (.refl _)
  apply okImplies_ite
  · apply okImplies_bind (whenSet_mono hflags _ _) fun _ => .refl _
    exact okImplies_bind (lockTimeOperand_mono hflags st.stack) fun _ => .refl _
  apply okImplies_ite
  · apply okImplies_bind (whenSet_mono hflags _ _) fun _ => .refl _
    exact okImplies_bind (lockTimeOperand_mono hflags st.stack) fun _ => .refl _
  apply okImplies_ite
  · exact okImplies_bind (whenSet_mono hflags (.refl _) _) fun _ => .refl _
  exact okImplies_ite (ifOp_mono hflags sigversion opcode st) (.refl _)

theorem evalStackOp_implies (opcode : UInt8) (st : EvalState) :
    Implies R (evalStackOp crypto c strict sigversion opcode st)
      (evalStackOp crypto d weak sigversion opcode st) := by
  apply implies_ite (checkSigOp_implies hflags hagree crypto sigversion opcode _ _)
  apply implies_ite (implies_lift (pickOp_mono hflags opcode st.stack))
  apply implies_ite (implies_lift (unaryOp_mono hflags opcode st.stack))
  apply implies_ite (implies_lift (binaryOp_mono hflags opcode st.stack))
  apply implies_ite (implies_lift (withinOp_mono hflags st.stack))
  exact implies_lift (.refl _)

theorem evalOp_implies (opcode : UInt8) (pc : CScript) (st : EvalState) :
    Implies R (evalOp crypto c strict sigversion opcode pc st)
      (evalOp crypto d weak sigversion opcode pc st) := by
  apply implies_ite (implies_pure _)
  apply implies_ite (implies_lift (controlOp_mono hflags hagree sigversion opcode st))
  apply implies_ite
  · match st.stack with
    | [] => exact implies_lift (.refl _)
    | vch :: rest => exact implies_pure _
  apply implies_ite
  · match st.altstack with
    | [] => exact implies_lift (.refl _)
    | vch :: rest => exact implies_pure _
  apply implies_ite (implies_pure _)
  apply implies_ite (checkMultiSigOp_implies hflags hagree crypto sigversion opcode st)
  apply implies_bind (evalStackOp_implies hflags hagree crypto sigversion opcode st)
  intro stack
  exact implies_pure _

theorem execInstruction_implies (opcode : UInt8) (vchPushValue : Bytes) (pc : CScript)
    (st : EvalState) :
    Implies R (execInstruction crypto c strict sigversion opcode vchPushValue pc st)
      (execInstruction crypto d weak sigversion opcode vchPushValue pc st) := by
  apply implies_ite
  · apply implies_bind (implies_lift (okImplies_require _)) fun _ => implies_pure _
    intro hstrict
    cases hweak : requireMinimal weak with
    | false => rfl
    | true => rwa [requireMinimal_mono hflags hweak] at hstrict
  · exact implies_ite (evalOp_implies hflags hagree crypto sigversion opcode pc st)
      (implies_pure _)

theorem evalStep_implies (opcode : UInt8) (vchPushValue : Bytes) (pc : CScript) (st : EvalState) :
    Implies R (evalStep crypto c strict sigversion opcode vchPushValue pc st)
      (evalStep crypto d weak sigversion opcode vchPushValue pc st) := by
  apply implies_bind (implies_lift (checkInstruction_mono hflags sigversion opcode _ _))
  intro nOpCount
  apply implies_bind (execInstruction_implies hflags hagree crypto sigversion opcode _ pc _)
  intro st
  exact implies_bind (implies_lift (.refl _)) fun _ => implies_pure _

theorem evalLoop_implies : ∀ (fuel : Nat) (pc : CScript) (st : EvalState),
    Implies R (evalLoop crypto c strict sigversion fuel pc st)
      (evalLoop crypto d weak sigversion fuel pc st)
  | 0, _, st => implies_pure st
  | fuel + 1, pc, st => by
      rw [evalLoop, evalLoop]
      apply implies_ite (implies_pure st)
      match getScriptOp pc with
      | none => exact implies_lift (.refl _)
      | some (opcode, vchPushValue, pc) =>
        apply implies_bind
          (evalStep_implies hflags hagree crypto sigversion opcode vchPushValue pc st)
        intro st
        exact evalLoop_implies fuel pc st

theorem evalScript_implies (script : CScript) (stack : List Bytes) :
    Implies R (evalScript crypto c strict sigversion script stack)
      (evalScript crypto d weak sigversion script stack) := by
  apply implies_bind (implies_lift (.refl _))
  intro _
  apply implies_bind (evalLoop_implies hflags hagree crypto sigversion _ script _)
  intro st
  exact implies_bind (implies_lift (.refl _)) fun _ => implies_pure _

end

/-! ### `VerifyScript` -/

/-- `WITNESS` needs `P2SH`, and `CLEANSTACK` needs both. -/
structure FlagsConsistent (flags : UInt32) : Prop where
  witness : flagSet flags SCRIPT_VERIFY_WITNESS = true → flagSet flags SCRIPT_VERIFY_P2SH = true
  cleanStack : flagSet flags SCRIPT_VERIFY_CLEANSTACK = true →
    flagSet flags SCRIPT_VERIFY_P2SH = true ∧ flagSet flags SCRIPT_VERIFY_WITNESS = true

instance (flags : UInt32) : Decidable (FlagsConsistent flags) :=
  decidable_of_iff
    ((flagSet flags SCRIPT_VERIFY_WITNESS = true → flagSet flags SCRIPT_VERIFY_P2SH = true) ∧
      (flagSet flags SCRIPT_VERIFY_CLEANSTACK = true →
        flagSet flags SCRIPT_VERIFY_P2SH = true ∧ flagSet flags SCRIPT_VERIFY_WITNESS = true))
    ⟨fun h => ⟨h.1, h.2⟩, fun h => ⟨h.witness, h.cleanStack⟩⟩

/-- A stage that only the strict run enters leaves related states. -/
theorem skip_related {α σ τ : Type} {weak strict mask : UInt32} {R : σ → τ → Prop}
    (hskip : weak = strict ∨ ∀ s s' t, R s t → R s' t) (hweak : flagSet weak mask = false)
    {x : Exec ScriptFailure σ α} {a b : α} (hidle : flagSet strict mask = false → x = pure a)
    {s s' : σ} {t : τ} (hst : R s t) (hrun : runOn x s = (.ok b, s')) : R s' t := by
  rcases hskip with rfl | hskip
  · rw [hidle hweak] at hrun
    obtain ⟨_, rfl⟩ := runOn_pure_eq_ok.mp hrun
    exact hst
  · exact hskip s s' t hst

/-- The same under fewer flags, if it looks at witnesses. -/
def SameWithWitness (flags : UInt32) (v w : Verified) : Prop :=
  flagSet flags SCRIPT_VERIFY_WITNESS = true → v = w

section

variable {weak strict : UInt32} (hflags : FlagsWithin weak strict)

include hflags

variable {v w : Verified}

theorem verifyEnd_mono (hconsistent : FlagsConsistent weak)
    (hsame : SameWithWitness weak v w) (witness : List Bytes) :
    OkImplies (verifyEnd strict witness v) (verifyEnd weak witness w) := by
  apply okImplies_bind (whenSet_mono_of hflags _)
  · intro _
    apply whenSet_mono_of hflags
    intro hwitness
    rw [hsame hwitness]
    exact okImplies_bind (okImplies_require fun _ => hconsistent.witness hwitness) fun _ => .refl _
  · intro hclean
    obtain ⟨hp2sh, hwitness⟩ := hconsistent.cleanStack hclean
    rw [hsame hwitness]
    apply okImplies_bind (okImplies_require fun _ => hp2sh)
    intro _
    exact okImplies_bind (okImplies_require fun _ => hwitness) fun _ => .refl _

variable {σ τ : Type} {R : σ → τ → Prop} {c : SignatureChecker σ} {d : SignatureChecker τ}
  (hagree : CheckersAgree R c d) (crypto : ScriptCrypto)

include hagree

theorem verifyWitnessProgram_implies (witversion : Nat) (program : Bytes) (witness : List Bytes) :
    Implies R (verifyWitnessProgram crypto c strict witversion program witness)
      (verifyWitnessProgram crypto d weak witversion program witness) := by
  apply implies_ite
  · apply implies_bind (implies_lift (.refl _))
    intro ⟨script, stack⟩
    apply implies_bind (implies_lift (.refl _))
    intro _
    apply implies_bind (evalScript_implies hflags hagree crypto .WITNESS_V0 script stack)
    intro stack
    apply implies_bind (implies_lift (.refl _))
    intro _
    exact implies_bind (implies_lift (.refl _)) fun _ => implies_pure _
  · exact implies_bind (implies_lift (whenSet_mono hflags (.refl _) _)) fun _ => implies_pure _

-- what a flag of the strict run alone makes it do must not be seen in the states
variable (hskip : weak = strict ∨ ∀ s s' t, R s t → R s' t)

include hskip

theorem verifyWitness_implies (script : CScript) (exact : Bool) (malleated : ScriptError)
    (witness : List Bytes) (hsame : SameWithWitness weak v w) :
    ImpliesUpTo R (SameWithWitness weak)
      (verifyWitness crypto c strict script exact malleated witness v)
      (verifyWitness crypto d weak script exact malleated witness w) := by
  cases hwitness : flagSet weak SCRIPT_VERIFY_WITNESS with
  | true =>
    rw [verifyWitness, verifyWitness, hwitness, flagSet_mono hflags hwitness, hsame hwitness,
      if_pos rfl, if_pos rfl]
    apply Implies.upTo fun _ _ => rfl
    match isWitnessProgram script with
    | none => exact implies_pure w
    | some (witversion, program) =>
      apply implies_bind (implies_lift (.refl _))
      intro _
      exact implies_bind
        (verifyWitnessProgram_implies hflags hagree crypto witversion program witness)
        fun _ => implies_pure _
  | false =>
    have hidle : verifyWitness crypto d weak script exact malleated witness w = pure w := by
      rw [verifyWitness, hwitness, if_neg Bool.false_ne_true]
    rw [hidle]
    apply impliesUpTo_skip
    intro s t hst a s' hrun
    refine ⟨skip_related hskip hwitness (a := v) (fun hstrict => ?_) hst hrun, ?_⟩
    · rw [verifyWitness, hstrict, if_neg Bool.false_ne_true]
    · intro hset
      rw [hwitness] at hset
      cases hset

theorem verifyRedeem_implies (scriptSig : CScript) (witness : List Bytes)
    (hsame : SameWithWitness weak v w) (stackCopy : List Bytes) :
    ImpliesUpTo R (SameWithWitness weak)
      (verifyRedeem crypto c strict scriptSig witness v stackCopy)
      (verifyRedeem crypto d weak scriptSig witness w stackCopy) := by
  match stackCopy with
  | [] => exact (implies_lift (.refl _)).upTo fun _ _ => rfl
  | pubKey2 :: rest =>
    apply Implies.bind_upTo (evalScript_implies hflags hagree crypto .BASE pubKey2 rest)
    intro stack
    apply Implies.bind_upTo (implies_lift (.refl _))
    intro _
    apply verifyWitness_implies hflags hagree crypto hskip
    intro hwitness
    rw [hsame hwitness]

theorem verifyP2SH_implies (hconsistent : FlagsConsistent weak) (scriptSig scriptPubKey : CScript)
    (stackCopy witness : List Bytes) (hsame : SameWithWitness weak v w) :
    ImpliesUpTo R (SameWithWitness weak)
      (verifyP2SH crypto c strict scriptSig scriptPubKey stackCopy witness v)
      (verifyP2SH crypto d weak scriptSig scriptPubKey stackCopy witness w) := by
  cases hp2sh : flagSet weak SCRIPT_VERIFY_P2SH with
  | true =>
    rw [verifyP2SH, verifyP2SH, hp2sh, flagSet_mono hflags hp2sh, Bool.true_and]
    by_cases hscript : isPayToScriptHash scriptPubKey = true
    · rw [if_pos hscript, if_pos hscript]
      apply Implies.bind_upTo (implies_lift (.refl _))
      intro _
      exact verifyRedeem_implies hflags hagree crypto hskip scriptSig witness hsame stackCopy
    · rw [if_neg hscript, if_neg hscript]
      exact impliesUpTo_pure hsame
  | false =>
    have hidle : verifyP2SH crypto d weak scriptSig scriptPubKey stackCopy witness w = pure w := by
      rw [verifyP2SH, hp2sh, Bool.false_and, if_neg Bool.false_ne_true]
    rw [hidle]
    apply impliesUpTo_skip
    intro s t hst a s' hrun
    refine ⟨skip_related hskip hp2sh (a := v) (fun hstrict => ?_) hst hrun, ?_⟩
    · rw [verifyP2SH, hstrict, Bool.false_and, if_neg Bool.false_ne_true]
    · intro hwitness
      rw [hconsistent.witness hwitness] at hp2sh
      cases hp2sh

theorem verifyScript_implies (hconsistent : FlagsConsistent weak)
    (scriptSig scriptPubKey : CScript) (witness : List Bytes) :
    ImpliesUpTo R (fun _ _ => True)
      (verifyScript crypto c strict scriptSig scriptPubKey witness)
      (verifyScript crypto d weak scriptSig scriptPubKey witness) := by
  apply Implies.bind_upTo (implies_lift (whenSet_mono hflags (.refl _) _))
  intro _
  apply Implies.bind_upTo (evalScript_implies hflags hagree crypto .BASE scriptSig [])
  intro stackCopy
  apply Implies.bind_upTo (evalScript_implies hflags hagree crypto .BASE scriptPubKey stackCopy)
  intro stack
  apply Implies.bind_upTo (implies_lift (.refl _))
  intro _
  apply impliesUpTo_bind
    (verifyWitness_implies hflags hagree crypto hskip scriptPubKey _ _ witness fun _ => rfl)
  intro v w hsame
  apply impliesUpTo_bind (verifyP2SH_implies hflags hagree crypto hskip hconsistent scriptSig
    scriptPubKey stackCopy witness hsame)
  intro v w hsame
  apply Implies.bind_upTo (implies_lift (verifyEnd_mono hflags hconsistent hsame witness))
  intro _
  exact impliesUpTo_pure trivial

end

/-- **Flags are soft forks.** What is accepted under some flags is accepted under every part of them
    that keeps their dependencies. -/
theorem verification_flags_only_restrict (crypto : ScriptCrypto)
    (checker : SignatureChecker Unit) {flags more : UInt32} (hwithin : FlagsWithin flags more)
    (hconsistent : FlagsConsistent flags) (scriptSig scriptPubKey : CScript)
    (witness : List Bytes)
    (haccepted : verifies crypto checker more scriptSig scriptPubKey witness = true) :
    verifies crypto checker flags scriptSig scriptPubKey witness = true := by
  obtain ⟨executed, hrun⟩ := verifies_iff.mp haccepted
  -- a checker without a state answers as itself
  have hagree : CheckersAgree (fun _ _ => True) checker checker :=
    ⟨fun _ _ _ _ _ _ _ => ⟨rfl, trivial⟩, rfl, rfl⟩
  obtain ⟨executed', _, hrun', _, _⟩ :=
    verifyScript_implies hwithin hagree crypto (.inr fun _ _ _ _ => trivial) hconsistent scriptSig
      scriptPubKey witness () () trivial executed () hrun
  exact verifies_iff.mpr ⟨executed', hrun'⟩

namespace Regtest

theorem nestedSpend_softFork :
    FlagsConsistent (SCRIPT_VERIFY_P2SH ||| SCRIPT_VERIFY_WITNESS) ∧
      verifies scriptCrypto secondKeyOnly (SCRIPT_VERIFY_P2SH ||| SCRIPT_VERIFY_WITNESS)
        nestedScriptSig nestedScriptPubKey nestedWitness = true :=
  ⟨by decide, verification_flags_only_restrict scriptCrypto secondKeyOnly
    (show FlagsWithin _ 0x1ffff by decide) (by decide) _ _ _ (by decide)⟩

end Regtest

end VBitcoin
