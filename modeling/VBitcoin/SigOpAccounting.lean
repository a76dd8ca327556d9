import VBitcoin.VerifyScript

/-!
**Signature operations are counted soundly** — the limits of a block count them by reading
scripts (`CScript::GetSigOpCount`, `CountWitnessSigOps`), and the work they bound is the calls
of `CheckSig`.  The count takes the number of keys of a `CHECKMULTISIG` from the opcode before
it, the interpreter from its stack; `PushedLast` connects the two.
-/

namespace VBitcoin

open Exec List

/-! ### The count as a recursion -/

/-- The signature operations of a list of instructions after `lastOpcode`. -/
def sigOpsFrom (fAccurate : Bool) : UInt8 → List (UInt8 × Bytes) → Nat
  | _, [] => 0
  | lastOpcode, op :: ops =>
    sigOpsOf fAccurate lastOpcode op.1 + sigOpsFrom fAccurate op.1 ops

theorem foldl_sigOpsOf (fAccurate : Bool) :
    ∀ (ops : List (UInt8 × Bytes)) (n : Nat) (lastOpcode : UInt8),
      (ops.foldl (fun (n, lastOpcode) op => (n + sigOpsOf fAccurate lastOpcode op.1, op.1))
        (n, lastOpcode)).1 = n + sigOpsFrom fAccurate lastOpcode ops
  | [], _, _ => rfl
  | op :: ops, n, lastOpcode => by
      rw [foldl_cons, foldl_sigOpsOf fAccurate ops, sigOpsFrom, Nat.add_assoc]

theorem getSigOpCount_eq (script : CScript) (fAccurate : Bool) :
    getSigOpCount script fAccurate =
      sigOpsFrom fAccurate OP_INVALIDOPCODE (scriptOps script).1 := by
  rw [getSigOpCount, foldl_sigOpsOf, Nat.zero_add]

variable {opcode : UInt8} {script : CScript}

theorem decodeOP_N_le : ∀ opcode ≤ OP_16, decodeOP_N opcode ≤ 16 := by decide +kernel

theorem sigOpsOf_accurate_le (lastOpcode opcode : UInt8) :
    sigOpsOf true lastOpcode opcode ≤ sigOpsOf false lastOpcode opcode := by
  have hguess : (if true ∧ OP_1 ≤ lastOpcode ∧ lastOpcode ≤ OP_16 then decodeOP_N lastOpcode
      else MAX_PUBKEYS_PER_MULTISIG) ≤ MAX_PUBKEYS_PER_MULTISIG := by
    split
    · rename_i hlast
      exact Nat.le_trans (decodeOP_N_le _ hlast.2.2) (by decide)
    · exact Nat.le_refl _
  unfold sigOpsOf
  split
  · exact Nat.le_refl 1
  · split
    · simpa using hguess
    · exact Nat.le_refl 0

theorem sigOpsFrom_accurate_le : ∀ (ops : List (UInt8 × Bytes)) (lastOpcode : UInt8),
    sigOpsFrom true lastOpcode ops ≤ sigOpsFrom false lastOpcode ops
  | [], _ => Nat.le_refl 0
  | op :: ops, lastOpcode =>
      Nat.add_le_add (sigOpsOf_accurate_le lastOpcode op.1) (sigOpsFrom_accurate_le ops op.1)

theorem getSigOpCount_accurate_le (script : CScript) :
    getSigOpCount script true ≤ getSigOpCount script false := by
  rw [getSigOpCount_eq, getSigOpCount_eq]
  exact sigOpsFrom_accurate_le _ _

/-! ### Counting the calls of `CheckSig` -/

/-- The checker with a counter of the calls of `CheckSig`. -/
def SignatureChecker.counting {σ : Type} (checker : SignatureChecker σ) :
    SignatureChecker (σ × Nat) where
  checkSig vchSig vchPubKey scriptCode sigversion := fun (s, calls) =>
    let (fSuccess, s) := (checker.checkSig vchSig vchPubKey scriptCode sigversion).run s
    (fSuccess, (s, calls + 1))
  checkLockTime := checker.checkLockTime
  checkSequence := checker.checkSequence

variable {σ : Type} {crypto : ScriptCrypto} {checker : SignatureChecker σ} {flags : UInt32}
  {sigversion : SigVersion}

theorem checkOneSig_costs (scriptCode : CScript) (vchSig vchPubKey : Bytes) :
    Costs Prod.snd 1
      (checkOneSig crypto checker.counting flags sigversion scriptCode vchSig vchPubKey) := by
  apply costs_lift_bind
  intro _ _
  apply costs_lift_bind
  intro _ _
  exact costs_state fun _ => Nat.le_refl _

theorem checkSigOp_costs (opcode : UInt8) (pbegincodehash : CScript) (stack : List Bytes) :
    Costs Prod.snd 1
      (checkSigOp crypto checker.counting flags sigversion opcode pbegincodehash stack) := by
  match stack with
  | [] => exact costs_lift 1 _
  | [_] => exact costs_lift 1 _
  | vchPubKey :: vchSig :: rest =>
    apply costs_lift_bind
    intro scriptCode _
    apply costs_bind_free
      (checkOneSig_costs scriptCode vchSig vchPubKey)
    intro fSuccess
    exact costs_lift_bind fun _ _ => costs_lift 0 _

theorem multisigLoop_costs (scriptCode : CScript) : ∀ (keys sigs : List Bytes),
    Costs Prod.snd keys.length
      (multisigLoop crypto checker.counting flags sigversion scriptCode keys sigs)
  | keys, [] => by
      rw [multisigLoop]
      exact costs_pure _ true
  | [], vchSig :: sigs => by
      rw [multisigLoop]
      exact costs_pure _ false
  | vchPubKey :: keys, vchSig :: sigs => by
      rw [multisigLoop, length_cons, Nat.add_comm]
      apply costs_bind (checkOneSig_costs scriptCode vchSig vchPubKey)
      intro s fOk s' _
      exact costs_ite (fun _ => costs_pure _ false) fun _ => multisigLoop_costs scriptCode keys _

theorem checkMultiSigOp_costs (opcode : UInt8) (st : EvalState) {n : Nat}
    (hkeys : ∀ nKeys nSigs, multisigCounts flags st.nOpCount st.stack = .ok (nKeys, nSigs) →
      nKeys ≤ n) :
    Costs Prod.snd n (checkMultiSigOp crypto checker.counting flags sigversion opcode st) := by
  apply costs_lift_bind
  intro ⟨nKeys, nSigs⟩ hcounts
  have hle := hkeys nKeys nSigs hcounts
  apply costs_lift_bind
  intro scriptCode _
  apply costs_bind_free ((multisigLoop_costs scriptCode _ _).mono
    (Nat.le_trans (length_take_le _ _) hle))
  intro fSuccess
  exact costs_lift_bind fun _ _ => costs_pure 0 _

/-! ### What the opcode before a `CHECKMULTISIG` says -/

/-- A number just executed is on top of the stack. -/
def PushedLast (lastOpcode : UInt8) (st : EvalState) : Prop :=
  OP_1 ≤ lastOpcode → lastOpcode ≤ OP_16 → st.fExec = true →
    st.stack.getD 0 [] = pushedNumber lastOpcode

theorem readNum_pushedNumber : ∀ (opcode : UInt8) (fRequireMinimal : Bool), OP_1 ≤ opcode →
    opcode ≤ OP_16 → (readNum fRequireMinimal (pushedNumber opcode)).map
      (fun n => n.getint.toNat) = .ok (decodeOP_N opcode) := by
  decide +kernel

variable {nKeys nSigs : Nat} {stack rest witness : List Bytes} {vchPushValue data program : Bytes}
  {pc script scriptSig : CScript} {st st' : EvalState} {s s' : σ} {v v' : Verified}

theorem multisigCounts_keys {nOpCount : Nat}
    (h : multisigCounts flags nOpCount stack = .ok (nKeys, nSigs)) :
    nKeys ≤ MAX_PUBKEYS_PER_MULTISIG ∧
      (readNum (requireMinimal flags) (stack.getD 0 [])).map (fun n => n.getint.toNat) =
        .ok nKeys := by
  obtain ⟨_, _, h⟩ := bind_eq_ok.mp h
  obtain ⟨bn, hread, h⟩ := bind_eq_ok.mp h
  obtain ⟨_, hrange, h⟩ := bind_eq_ok.mp h
  obtain ⟨_, _, h⟩ := bind_eq_ok.mp h
  obtain ⟨_, _, h⟩ := bind_eq_ok.mp h
  obtain ⟨_, _, h⟩ := bind_eq_ok.mp h
  obtain ⟨_, _, h⟩ := bind_eq_ok.mp h
  obtain ⟨_, _, h⟩ := bind_eq_ok.mp h
  cases h
  have hrange := require_eq_ok.mp hrange
  simp only [Bool.and_eq_true, decide_eq_true_eq] at hrange
  exact ⟨by omega, by rw [hread]; rfl⟩

variable {lastOpcode : UInt8} {st : EvalState}

theorem multisigCounts_after
    (hlast : PushedLast lastOpcode st) (hexec : st.fExec = true) (hlow : OP_1 ≤ lastOpcode)
    (hhigh : lastOpcode ≤ OP_16)
    (h : multisigCounts flags st.nOpCount st.stack = .ok (nKeys, nSigs)) :
    nKeys = decodeOP_N lastOpcode := by
  have hread := (multisigCounts_keys h).2
  rw [hlast hlow hhigh hexec] at hread
  rw [readNum_pushedNumber _ _ hlow hhigh] at hread
  exact (Except.ok.inj hread).symm

/-! ### One instruction -/

theorem checkMultiSigOp_counted (hlast : PushedLast lastOpcode st) (hexec : st.fExec = true)
    (hopcode : opcode = OP_CHECKMULTISIG ∨ opcode = OP_CHECKMULTISIGVERIFY) :
    Costs Prod.snd (sigOpsOf true lastOpcode opcode)
      (checkMultiSigOp crypto checker.counting flags sigversion opcode st) := by
  apply checkMultiSigOp_costs
  intro nKeys nSigs hcounts
  have hnot : ¬(opcode = OP_CHECKSIG ∨ opcode = OP_CHECKSIGVERIFY) := by
    rcases hopcode with rfl | rfl <;> decide
  rw [sigOpsOf, if_neg hnot, if_pos hopcode]
  split
  · rename_i hnumber
    exact Nat.le_of_eq (multisigCounts_after hlast hexec hnumber.2.1 hnumber.2.2 hcounts)
  · exact (multisigCounts_keys hcounts).1

theorem evalStackOp_counted (lastOpcode opcode : UInt8) (st : EvalState) :
    Costs Prod.snd (sigOpsOf true lastOpcode opcode)
      (evalStackOp crypto checker.counting flags sigversion opcode st) := by
  apply costs_ite
  · intro hopcode
    rw [sigOpsOf, if_pos hopcode]
    exact checkSigOp_costs opcode _ _
  intro _
  apply costs_ite fun _ => costs_lift _ _
  intro _
  apply costs_ite fun _ => costs_lift _ _
  intro _
  apply costs_ite fun _ => costs_lift _ _
  intro _
  apply costs_ite fun _ => costs_lift _ _
  intro _
  exact costs_lift _ _

theorem evalOp_counted (pc : CScript) (hlast : PushedLast lastOpcode st) (hexec : st.fExec = true) :
    Costs Prod.snd (sigOpsOf true lastOpcode opcode)
      (evalOp crypto checker.counting flags sigversion opcode pc st) := by
  apply costs_ite fun _ => costs_pure _ _
  intro _
  apply costs_ite fun _ => costs_lift _ _
  intro _
  apply costs_ite
  · intro _
    match st.stack with
    | [] => exact costs_lift _ _
    | vch :: rest => exact costs_pure _ _
  intro _
  apply costs_ite
  · intro _
    match st.altstack with
    | [] => exact costs_lift _ _
    | vch :: rest => exact costs_pure _ _
  intro _
  apply costs_ite fun _ => costs_pure _ _
  intro _
  apply costs_ite
    fun hopcode => checkMultiSigOp_counted hlast hexec hopcode
  intro _
  exact costs_bind_free (evalStackOp_counted lastOpcode opcode st)
    fun _ => costs_pure 0 _

theorem control_opcode : ∀ opcode : UInt8, OP_IF ≤ opcode → opcode ≤ OP_ENDIF →
    isPushNumber opcode = false ∧ isControl opcode = true := by
  decide +kernel

theorem evalOp_control (pc : CScript) (st : EvalState) (hlow : OP_IF ≤ opcode)
    (hhigh : opcode ≤ OP_ENDIF) : evalOp crypto checker flags sigversion opcode pc st =
      liftM (controlOp checker flags sigversion opcode st) := by
  obtain ⟨hnumber, hcontrol⟩ := control_opcode opcode hlow hhigh
  rw [evalOp, if_neg (by simp [hnumber]), if_pos hcontrol]

theorem execInstruction_counted (vchPushValue : Bytes)
    (pc : CScript) (hlast : PushedLast lastOpcode st) :
    Costs Prod.snd (sigOpsOf true lastOpcode opcode)
      (execInstruction crypto checker.counting flags sigversion opcode vchPushValue pc st) := by
  apply costs_ite
  · intro _
    exact costs_lift_bind fun _ _ => costs_pure _ _
  intro _
  apply costs_ite _ fun _ => costs_pure _ _
  rintro (hexec | ⟨hlow, hhigh⟩)
  · exact evalOp_counted pc hlast hexec
  · rw [evalOp_control pc st hlow hhigh]
    exact costs_lift _ _

theorem evalStep_counted (vchPushValue : Bytes) (pc : CScript) (hlast : PushedLast lastOpcode st) :
    Costs Prod.snd (sigOpsOf true lastOpcode opcode)
      (evalStep crypto checker.counting flags sigversion opcode vchPushValue pc st) := by
  apply costs_lift_bind
  intro nOpCount _
  apply costs_bind_free
    (execInstruction_counted vchPushValue pc _)
  · intro st
    exact costs_lift_bind fun _ _ => costs_pure 0 _
  · exact hlast

/-! ### Instructions that push -/

theorem small_number_opcode : ∀ opcode : UInt8, OP_1 ≤ opcode → opcode ≤ OP_16 →
    isPushNumber opcode = true ∧ ¬opcode ≤ OP_PUSHDATA4 ∧ ¬OP_IF ≤ opcode := by
  decide +kernel

theorem evalStep_eq_ok
    (h : runOn (evalStep crypto checker flags sigversion opcode vchPushValue pc st) s =
      (.ok st', s')) :
    ∃ mid : EvalState, mid.stack = st.stack ∧ mid.vfExec = st.vfExec ∧
      runOn (execInstruction crypto checker flags sigversion opcode vchPushValue pc mid) s =
        (.ok st', s') := by
  obtain ⟨nOpCount, -, h⟩ := runOn_lift_bind_eq_ok.mp h
  obtain ⟨st1, s2, hexec, h⟩ := runOn_bind_eq_ok.mp h
  obtain ⟨_, -, h⟩ := runOn_lift_bind_eq_ok.mp h
  obtain ⟨rfl, rfl⟩ := runOn_pure_eq_ok.mp h
  exact ⟨{ st with nOpCount := nOpCount }, rfl, rfl, hexec⟩

/-- In a branch not taken the number is not pushed, nor the next one executed. -/
theorem evalStep_pushedLast
    (h : runOn (evalStep crypto checker flags sigversion opcode vchPushValue pc st) s =
      (.ok st', s')) : PushedLast opcode st' := by
  intro hlow hhigh hexec
  obtain ⟨mid, _, _, h⟩ := evalStep_eq_ok h
  obtain ⟨hnumber, hdata, hcontrol⟩ := small_number_opcode opcode hlow hhigh
  rw [execInstruction, if_neg fun hpush => hdata hpush.2] at h
  by_cases hst : mid.fExec = true
  · rw [if_pos (.inl hst), evalOp, if_pos hnumber] at h
    obtain ⟨rfl, _⟩ := runOn_pure_eq_ok.mp h
    rfl
  · have hskip : ¬(mid.fExec = true ∨ (OP_IF ≤ opcode ∧ opcode ≤ OP_ENDIF)) := by
      rintro (hst' | hconditional)
      · exact hst hst'
      · exact hcontrol hconditional.1
    rw [if_neg hskip] at h
    obtain ⟨rfl, _⟩ := runOn_pure_eq_ok.mp h
    exact absurd hexec hst

/-! ### A whole run -/

theorem evalLoop_counted : ∀ (fuel : Nat) (pc : CScript) (st : EvalState) (lastOpcode : UInt8),
    PushedLast lastOpcode st →
    Costs Prod.snd (sigOpsFrom true lastOpcode (scriptOps pc).1)
      (evalLoop crypto checker.counting flags sigversion fuel pc st)
  | 0, _, st, _, _ => costs_pure _ st
  | fuel + 1, pc, st, lastOpcode, hlast => by
      rw [evalLoop]
      apply costs_ite fun _ => costs_pure _ st
      intro hne
      rw [scriptOps_eq pc (by simpa using hne)]
      match getScriptOp pc with
      | none => exact costs_lift _ _
      | some (opcode, vchPushValue, next) =>
        apply costs_bind (evalStep_counted vchPushValue next hlast)
        intro s st' s' hstep
        exact evalLoop_counted fuel next st' opcode
          (evalStep_pushedLast hstep)

theorem evalScript_counted (script : CScript) (stack : List Bytes) :
    Costs Prod.snd (getSigOpCount script true)
      (evalScript crypto checker.counting flags sigversion script stack) := by
  apply costs_lift_bind
  intro _ _
  rw [getSigOpCount_eq]
  apply costs_bind_free (evalLoop_counted _ script _
    OP_INVALIDOPCODE _)
  · intro st
    exact costs_lift_bind fun _ _ => costs_pure 0 _
  · intro _ hhigh
    exact absurd hhigh (by decide)

/-! ### The script that `scriptSig` pushed last -/

/-- What an instruction of a push-only script puts on the stack. -/
def pushedValue (op : UInt8 × Bytes) : Bytes :=
  if op.1 ≤ OP_PUSHDATA4 then op.2 else pushedNumber op.1

variable {s s' : σ} {result : List Bytes}

theorem pushOpcode_cases : ∀ opcode ≤ OP_16,
    opcode ≤ OP_PUSHDATA4 ∨ isPushNumber opcode = true ∨ opcode = 0x50 := by
  decide +kernel

theorem evalOp_reserved (pc : CScript) (st : EvalState) (s : σ) :
    runOn (evalOp crypto checker flags sigversion 0x50 pc st) s =
      (.error (.serror .SCRIPT_ERR_BAD_OPCODE), s) := rfl

theorem evalStep_push (hopcode : opcode ≤ OP_16) (hexec : st.vfExec = [])
    (h : runOn (evalStep crypto checker flags sigversion opcode vchPushValue pc st) s =
      (.ok st', s')) :
    st'.stack = pushedValue (opcode, vchPushValue) :: st.stack ∧ st'.vfExec = [] ∧
      (opcode ≤ OP_PUSHDATA4 ∨ isPushNumber opcode = true) := by
  obtain ⟨mid, hstack, hvfExec, h⟩ := evalStep_eq_ok h
  rw [hexec] at hvfExec
  have hmid : mid.fExec = true := by rw [EvalState.fExec, hvfExec]; rfl
  rw [execInstruction] at h
  by_cases hpush : opcode ≤ OP_PUSHDATA4
  · rw [if_pos ⟨hmid, hpush⟩] at h
    obtain ⟨_, s1, _, h⟩ := runOn_bind_eq_ok.mp h
    obtain ⟨rfl, _⟩ := runOn_pure_eq_ok.mp h
    exact ⟨by rw [pushedValue, if_pos hpush, hstack], hvfExec, .inl hpush⟩
  · rw [if_neg fun hand => hpush hand.2, if_pos (.inl hmid)] at h
    rcases pushOpcode_cases opcode hopcode with hle | hnumber | rfl
    · exact absurd hle hpush
    · rw [evalOp, if_pos hnumber] at h
      obtain ⟨rfl, _⟩ := runOn_pure_eq_ok.mp h
      exact ⟨by rw [pushedValue, if_neg hpush, hstack], hvfExec, .inr hnumber⟩
    · rw [evalOp_reserved] at h
      cases h

theorem evalLoop_push : ∀ (fuel : Nat) (pc : CScript) (st st' : EvalState) (s s' : σ),
    pc.length ≤ fuel → (∀ op ∈ (scriptOps pc).1, op.1 ≤ OP_16) → st.vfExec = [] →
    runOn (evalLoop crypto checker flags sigversion fuel pc st) s = (.ok st', s') →
    st'.stack = ((scriptOps pc).1.map pushedValue).reverse ++ st.stack ∧
      ∀ op ∈ (scriptOps pc).1, op.1 ≤ OP_PUSHDATA4 ∨ isPushNumber op.1 = true
  | 0, pc, st, st', s, s', hlen, _, _, h => by
      obtain rfl : pc = [] := eq_nil_of_length_eq_zero (by omega)
      obtain ⟨rfl, _⟩ := runOn_pure_eq_ok.mp h
      exact ⟨rfl, by simp [scriptOps, scriptOpsFuel]⟩
  | fuel + 1, [], st, st', s, s', _, _, _, h => by
      obtain ⟨rfl, _⟩ := runOn_pure_eq_ok.mp h
      exact ⟨rfl, by simp [scriptOps, scriptOpsFuel]⟩
  | fuel + 1, byte :: pc, st, st', s, s', hlen, hops, hexec, h => by
      rw [scriptOps_eq (byte :: pc) (by simp)] at hops ⊢
      rw [evalLoop, if_neg (by simp)] at h
      cases hop : getScriptOp (byte :: pc) with
      | none =>
        rw [hop] at h
        cases h
      | some r =>
        obtain ⟨opcode, vchPushValue, next⟩ := r
        rw [hop] at h hops
        obtain ⟨mid, s1, hstep, hloop⟩ := runOn_bind_eq_ok.mp h
        have hshorter := getScriptOp_length hop
        rw [length_cons] at hshorter hlen
        dsimp only at hops ⊢
        obtain ⟨hstack, hmid, hkind⟩ := evalStep_push
          (hops _ mem_cons_self) hexec hstep
        obtain ⟨hrest, hkinds⟩ := evalLoop_push fuel next mid st' s1 s' (by omega)
          (forall_mem_cons.mp hops).2 hmid hloop
        refine ⟨?_, ?_⟩
        · rw [hrest, hstack, map_cons, reverse_cons, append_assoc]
          rfl
        · intro op hmem
          rcases mem_cons.mp hmem with rfl | hmem
          · exact hkind
          · exact hkinds op hmem

theorem evalScript_eq_ok
    (h : runOn (evalScript crypto checker flags sigversion script stack) s = (.ok result, s')) :
    ∃ st, runOn (evalLoop crypto checker flags sigversion script.length script
      ⟨stack, [], [], 0, script⟩) s = (.ok st, s') ∧ result = st.stack := by
  obtain ⟨_, -, h⟩ := runOn_lift_bind_eq_ok.mp h
  obtain ⟨st, s2, hloop, h⟩ := runOn_bind_eq_ok.mp h
  obtain ⟨_, -, h⟩ := runOn_lift_bind_eq_ok.mp h
  obtain ⟨rfl, rfl⟩ := runOn_pure_eq_ok.mp h
  exact ⟨st, hloop, rfl⟩

theorem evalScript_push_top {top : Bytes} (hpush : isPushOnly scriptSig = true)
    (h : runOn (evalScript crypto checker flags sigversion scriptSig []) s =
      (.ok (top :: rest), s')) :
    ∃ op, (scriptOps scriptSig).1.getLast? = some op ∧ top = pushedValue op ∧
      (op.1 ≤ OP_PUSHDATA4 ∨ isPushNumber op.1 = true) := by
  obtain ⟨st, hloop, hresult⟩ := evalScript_eq_ok h
  have hops : ∀ op ∈ (scriptOps scriptSig).1, op.1 ≤ OP_16 := by
    rw [isPushOnly, Bool.and_eq_true, all_eq_true] at hpush
    exact fun op hmem => of_decide_eq_true (hpush.2 op hmem)
  obtain ⟨hstack, hkinds⟩ :=
    evalLoop_push _ _ _ _ s s' (Nat.le_refl _) hops rfl hloop
  rw [← hresult, append_nil, ← map_reverse] at hstack
  cases hrev : (scriptOps scriptSig).1.reverse with
  | nil =>
    rw [hrev] at hstack
    cases hstack
  | cons op ops =>
    rw [hrev, map_cons, List.cons.injEq] at hstack
    have hlast : (scriptOps scriptSig).1.getLast? = some op := by
      rw [← head?_reverse, hrev]
      rfl
    exact ⟨op, hlast, hstack.1, hkinds op (mem_of_getLast? hlast)⟩

/-- As scripts these values are a disabled opcode or a push without its data. -/
theorem pushedNumber_script : ∀ opcode, isPushNumber opcode = true →
    ∃ byte, pushedNumber opcode = [byte] ∧ (byte = OP_RIGHT ∨ getScriptOp [byte] = none) := by
  decide +kernel

theorem evalScript_pushedNumber (hnumber : isPushNumber opcode = true) :
    runOn (evalScript crypto checker flags sigversion (pushedNumber opcode) stack) s ≠
      (.ok result, s') := by
  intro h
  obtain ⟨byte, hscript, hbyte⟩ := pushedNumber_script opcode hnumber
  rw [hscript] at h
  obtain ⟨st, hloop, _⟩ := evalScript_eq_ok h
  rw [length_singleton, evalLoop, if_neg (by simp)] at hloop
  rcases hbyte with rfl | hnone
  · cases hloop
  · rw [hnone] at hloop
    cases hloop

theorem redeem_eq_lastPushedData {pubKey2 : CScript}
    {t t' : σ} (hpush : isPushOnly scriptSig = true)
    (hsig : runOn (evalScript crypto checker flags sigversion scriptSig []) s =
      (.ok (pubKey2 :: rest), s'))
    (hredeem : runOn (evalScript crypto checker flags sigversion pubKey2 rest) t =
      (.ok result, t')) : pubKey2 = lastPushedData scriptSig := by
  obtain ⟨op, hlast, rfl, hkind⟩ := evalScript_push_top hpush hsig
  rw [lastPushedData, hlast, Option.map_some, Option.getD_some]
  by_cases hle : op.1 ≤ OP_PUSHDATA4
  · rw [pushedValue, if_pos hle]
  · rw [pushedValue, if_neg hle] at hredeem
    exact absurd hredeem
      (evalScript_pushedNumber (hkind.resolve_left hle))

/-! ### Scripts of a fixed form -/

theorem scriptOps_hash160 {hash : Bytes} (hlen : hash.length = 20) (pc : CScript) :
    (scriptOps (OP_HASH160 :: 0x14 :: (hash ++ pc))).1 =
      (OP_HASH160, []) :: (0x14, hash) :: (scriptOps pc).1 := by
  rw [scriptOps_cons (getScriptOp_opcode (by decide) _),
    scriptOps_cons (getScriptOp_push (by decide) hlen pc)]

theorem isPayToScriptHash_form (h : isPayToScriptHash script = true) :
    ∃ hash : Bytes, hash.length = 20 ∧ script = OP_HASH160 :: 0x14 :: (hash ++ [OP_EQUAL]) := by
  simp only [isPayToScriptHash, Bool.and_eq_true, beq_iff_eq] at h
  obtain ⟨⟨⟨hlen, hfirst⟩, hsecond⟩, hlast⟩ := h
  match script, hlen with
  | first :: second :: rest, hlen =>
    have hrest : rest.length = 21 := by simpa using hlen
    have hend : rest.drop 20 = [OP_EQUAL] := by
      rw [drop_eq_getElem_cons (by omega), drop_of_length_le (by omega)]
      have hlast : rest.getD 20 0 = OP_EQUAL := hlast
      rw [getD_eq_getElem rest 0 (by omega)] at hlast
      rw [hlast]
    refine ⟨rest.take 20, by rw [length_take]; omega, ?_⟩
    rw [← hend, take_append_drop]
    exact congrArg₂ _ hfirst (congrArg₂ _ hsecond rfl)

theorem getSigOpCount_payToScriptHash (h : isPayToScriptHash script = true) :
    getSigOpCount script true = 0 := by
  obtain ⟨hash, hlen, rfl⟩ := isPayToScriptHash_form h
  rw [getSigOpCount_eq, scriptOps_hash160 hlen, scriptOps_cons (getScriptOp_opcode (by decide) _)]
  rfl

theorem getSigOpCount_payToPubkeyHash (hlen : program.length = 20) :
    getSigOpCount (payToPubkeyHash program) true = 1 := by
  have hform : payToPubkeyHash program =
      OP_DUP :: OP_HASH160 :: 0x14 :: (program ++ [OP_EQUALVERIFY, OP_CHECKSIG]) := by
    rw [payToPubkeyHash, pushBytes, if_pos (by rw [hlen]; decide), hlen]
    rfl
  rw [hform, getSigOpCount_eq, scriptOps_cons (getScriptOp_opcode (by decide) _),
    scriptOps_hash160 hlen, scriptOps_cons (getScriptOp_opcode (by decide) _),
    scriptOps_cons (getScriptOp_opcode (by decide) _)]
  rfl

theorem isWitnessProgram_payToScriptHash
    (h : isPayToScriptHash script = true) : isWitnessProgram script = none := by
  obtain ⟨hash, hlen, rfl⟩ := isPayToScriptHash_form h
  rw [isWitnessProgram, if_neg (by simp [hlen]), if_pos (by decide)]

/-! ### A spend -/

/-- The scripts it ran are counted, with no more calls of `CheckSig` than that. -/
structure SpendCounted (scriptSig scriptPubKey : CScript) (witness : List Bytes)
    (executed : Executed) (calls : Nat) : Prop where
  redeemScript : isPayToScriptHash scriptPubKey = true →
    executed.redeemScript = some (lastPushedData scriptSig)
  redeemCount : ∀ script, executed.redeemScript = some script →
    getSigOpCountP2SH scriptPubKey scriptSig = getSigOpCount script true
  witnessScript : ∀ script, executed.witnessScript = some script →
    witness.getLast? = some script ∨ ∃ program, script = payToPubkeyHash program
  witnessCount : ∀ script, executed.witnessScript = some script →
    countWitnessSigOps scriptSig scriptPubKey witness = getSigOpCount script true
  calls : calls ≤ getSigOpCount scriptSig true + getSigOpCountP2SH scriptPubKey scriptSig +
    countWitnessSigOps scriptSig scriptPubKey witness

/-- What running a witness program has to do with counting it. -/
structure ProgramCounted (counted : Nat) (witness : List Bytes) (ran : Option CScript)
    (before after : Nat) : Prop where
  calls : after ≤ before + counted
  count : ∀ script, ran = some script → counted = getSigOpCount script true
  script : ∀ script, ran = some script →
    witness.getLast? = some script ∨ ∃ program, script = payToPubkeyHash program

variable {witness : List Bytes}

theorem witnessScriptOf_counted (h : witnessScriptOf crypto program witness = .ok (script, stack)) :
    witnessSigOps 0 program witness = getSigOpCount script true ∧
      (witness.getLast? = some script ∨ ∃ program, script = payToPubkeyHash program) := by
  rw [witnessScriptOf] at h
  split at h
  · rename_i hlen
    cases hlast : witness.getLast? with
    | none =>
      rw [hlast] at h
      cases h
    | some last =>
      rw [hlast] at h
      obtain ⟨_, _, h⟩ := bind_eq_ok.mp h
      cases h
      rw [witnessSigOps, if_pos rfl, if_neg (by omega), hlast]
      exact ⟨if_pos hlen, .inl rfl⟩
  · split at h
    · rename_i hlen
      obtain ⟨_, _, h⟩ := bind_eq_ok.mp h
      cases h
      rw [witnessSigOps, if_pos rfl, if_pos hlen, getSigOpCount_payToPubkeyHash hlen]
      exact ⟨rfl, .inr ⟨program, rfl⟩⟩
    · cases h

theorem verifyWitnessProgram_counted {witversion : Nat} {ran : Option CScript} {s s' : σ × Nat}
    (h : runOn (verifyWitnessProgram crypto checker.counting flags witversion program witness) s =
      (.ok ran, s')) :
    ProgramCounted (witnessSigOps witversion program witness) witness ran s.2 s'.2 := by
  rw [verifyWitnessProgram] at h
  split at h
  · rename_i hversion
    subst hversion
    obtain ⟨⟨script, stack⟩, hscriptOf, h⟩ := runOn_lift_bind_eq_ok.mp h
    obtain ⟨_, -, h⟩ := runOn_lift_bind_eq_ok.mp h
    obtain ⟨result, s3, heval, h⟩ := runOn_bind_eq_ok.mp h
    obtain ⟨_, -, h⟩ := runOn_lift_bind_eq_ok.mp h
    obtain ⟨_, -, h⟩ := runOn_lift_bind_eq_ok.mp h
    obtain ⟨rfl, rfl⟩ := runOn_pure_eq_ok.mp h
    obtain ⟨hcount, hform⟩ := witnessScriptOf_counted hscriptOf
    refine ⟨?_, ?_, ?_⟩
    · rw [hcount]
      exact (evalScript_counted script stack).of_run heval
    · rintro _ ⟨⟩
      exact hcount
    · rintro _ ⟨⟩
      exact hform
  · obtain ⟨_, s1, hflag, h⟩ := runOn_bind_eq_ok.mp h
    obtain ⟨_, rfl⟩ := runOn_lift_eq_ok.mp hflag
    obtain ⟨rfl, rfl⟩ := runOn_pure_eq_ok.mp h
    exact ⟨Nat.le_add_right _ _, by simp, by simp⟩

/-- Counted for a script that may be a witness program. -/
def programSigOps (script : CScript) (witness : List Bytes) : Nat :=
  match isWitnessProgram script with
  | some (version, program) => witnessSigOps version program witness
  | none => 0

theorem verifyWitness_counted (hflag : flagSet flags SCRIPT_VERIFY_WITNESS = true)
    {exact : Bool} {malleated : ScriptError}
    {s s' : σ × Nat} (hnone : v.executed.witnessScript = none)
    (h : runOn (verifyWitness crypto checker.counting flags script exact malleated witness v) s =
      (.ok v', s')) :
    v'.executed.redeemScript = v.executed.redeemScript ∧
      ProgramCounted (programSigOps script witness) witness v'.executed.witnessScript s.2 s'.2 ∧
      (isWitnessProgram script = none → v' = v) := by
  rw [verifyWitness, if_pos hflag] at h
  rw [programSigOps]
  cases hprogram : isWitnessProgram script with
  | none =>
    rw [hprogram] at h
    obtain ⟨rfl, rfl⟩ := runOn_pure_eq_ok.mp h
    exact ⟨rfl, ⟨Nat.le_refl _, by simp [hnone], by simp [hnone]⟩, fun _ => rfl⟩
  | some r =>
    obtain ⟨version, program⟩ := r
    rw [hprogram] at h
    obtain ⟨_, -, h⟩ := runOn_lift_bind_eq_ok.mp h
    obtain ⟨ran, s2, hrun, h⟩ := runOn_bind_eq_ok.mp h
    obtain ⟨rfl, rfl⟩ := runOn_pure_eq_ok.mp h
    exact ⟨rfl, verifyWitnessProgram_counted hrun, fun hnone => by cases hnone⟩

variable {scriptSig scriptPubKey : CScript}

theorem countWitnessSigOps_bare
    (h : isPayToScriptHash scriptPubKey = false) (witness : List Bytes) :
    countWitnessSigOps scriptSig scriptPubKey witness = programSigOps scriptPubKey witness := by
  rw [countWitnessSigOps, programSigOps]
  cases isWitnessProgram scriptPubKey with
  | none => simp [h]
  | some r => rfl

theorem countWitnessSigOps_redeem
    (h : isPayToScriptHash scriptPubKey = true) (hpush : isPushOnly scriptSig = true)
    (witness : List Bytes) :
    countWitnessSigOps scriptSig scriptPubKey witness =
      programSigOps (lastPushedData scriptSig) witness := by
  have hbare := isWitnessProgram_payToScriptHash h
  cases hprogram : isWitnessProgram (lastPushedData scriptSig) with
  | none => simp [countWitnessSigOps, programSigOps, hbare, hprogram]
  | some r => simp [countWitnessSigOps, programSigOps, hbare, h, hpush, hprogram]

theorem verifyRedeem_counted (hflag : flagSet flags SCRIPT_VERIFY_WITNESS = true)
    {stackCopy : List Bytes} {s s' t t' : σ × Nat} (hpush : isPushOnly scriptSig = true)
    (hnone : v.executed.witnessScript = none)
    (hsig : runOn (evalScript crypto checker.counting flags .BASE scriptSig []) s =
      (.ok stackCopy, s'))
    (h : runOn (verifyRedeem crypto checker.counting flags scriptSig witness v stackCopy) t =
      (.ok v', t')) :
    v'.executed.redeemScript = some (lastPushedData scriptSig) ∧
      ProgramCounted (programSigOps (lastPushedData scriptSig) witness) witness
        v'.executed.witnessScript (t.2 + getSigOpCount (lastPushedData scriptSig) true) t'.2 := by
  match stackCopy with
  | [] => cases h
  | pubKey2 :: rest =>
    rw [verifyRedeem] at h
    obtain ⟨stack, t1, heval, h⟩ := runOn_bind_eq_ok.mp h
    obtain ⟨_, -, h⟩ := runOn_lift_bind_eq_ok.mp h
    obtain rfl := redeem_eq_lastPushedData hpush hsig heval
    obtain ⟨hredeem, hcounted, _⟩ := verifyWitness_counted hflag (by exact hnone) h
    refine ⟨hredeem, ?_, hcounted.count, hcounted.script⟩
    have hcalls := (evalScript_counted _ rest).of_run heval
    exact Nat.le_trans hcounted.calls (Nat.add_le_add_right hcalls _)

theorem verifyScript_counted (hp2sh : flagSet flags SCRIPT_VERIFY_P2SH = true)
    (hwitness : flagSet flags SCRIPT_VERIFY_WITNESS = true) {executed : Executed} {calls : Nat}
    (h : runOn (verifyScript crypto checker.counting flags scriptSig scriptPubKey witness) (s, 0) =
      (.ok executed, (s', calls))) :
    SpendCounted scriptSig scriptPubKey witness executed calls := by
  obtain ⟨_, -, h⟩ := runOn_lift_bind_eq_ok.mp h
  obtain ⟨stackCopy, s2, hsig, h⟩ := runOn_bind_eq_ok.mp h
  obtain ⟨stack, s3, hkey, h⟩ := runOn_bind_eq_ok.mp h
  obtain ⟨_, -, h⟩ := runOn_lift_bind_eq_ok.mp h
  obtain ⟨v, s5, hbare, h⟩ := runOn_bind_eq_ok.mp h
  obtain ⟨v', s6, hredeem, h⟩ := runOn_bind_eq_ok.mp h
  obtain ⟨_, -, h⟩ := runOn_lift_bind_eq_ok.mp h
  obtain ⟨rfl, rfl⟩ := runOn_pure_eq_ok.mp h
  have hsigCalls := (evalScript_counted scriptSig []).of_run hsig
  have hkeyCalls := (evalScript_counted scriptPubKey _).of_run hkey
  obtain ⟨hnoRedeem, hcounted, hsame⟩ := verifyWitness_counted hwitness rfl hbare
  cases hscript : isPayToScriptHash scriptPubKey with
  | false =>
    rw [verifyP2SH, hp2sh, hscript, if_neg (by simp)] at hredeem
    obtain ⟨rfl, rfl⟩ := runOn_pure_eq_ok.mp hredeem
    rw [← countWitnessSigOps_bare hscript] at hcounted
    refine ⟨by simp [hscript], by simp [hnoRedeem], hcounted.script, hcounted.count, ?_⟩
    have hcalls := hcounted.calls
    rw [getSigOpCountP2SH, hscript, if_pos (by rfl)]
    dsimp only at hsigCalls hcalls
    omega
  | true =>
    rw [hsame (isWitnessProgram_payToScriptHash hscript)] at hredeem
    rw [verifyP2SH, hp2sh, hscript, if_pos (by rfl)] at hredeem
    obtain ⟨_, hpushOnly, hredeem⟩ := runOn_lift_bind_eq_ok.mp hredeem
    have hpush := require_eq_ok.mp hpushOnly
    obtain ⟨hscripts, hcount⟩ := verifyRedeem_counted hwitness hpush rfl hsig hredeem
    have hp2shCount : getSigOpCountP2SH scriptPubKey scriptSig =
        getSigOpCount (lastPushedData scriptSig) true := by
      rw [getSigOpCountP2SH, hscript, if_neg (by simp), if_pos hpush]
    rw [← countWitnessSigOps_redeem hscript hpush] at hcount
    refine ⟨fun _ => hscripts, ?_, hcount.script, hcount.count, ?_⟩
    · intro script hran
      rw [hscripts] at hran
      rw [hp2shCount, Option.some.inj hran]
    · have hcalls := hcount.calls
      have hbareCalls := hcounted.calls
      rw [programSigOps, isWitnessProgram_payToScriptHash hscript] at hbareCalls
      rw [getSigOpCount_payToScriptHash hscript] at hkeyCalls
      rw [hp2shCount]
      dsimp only at hsigCalls hcalls hbareCalls
      omega

/-- **Signature operations are counted soundly**: `CheckSig` is called at most as often as the
    accurate count says, and in an accepted spend the scripts that ran are those counted. -/
theorem sigOp_counts_bound_checks (crypto : ScriptCrypto) (checker : SignatureChecker σ) :
    (∀ flags sigversion script stack s,
      (runOn (evalScript crypto checker.counting flags sigversion script stack) (s, 0)).2.2 ≤
          getSigOpCount script true ∧
        getSigOpCount script true ≤ getSigOpCount script false) ∧
    (∀ flags scriptSig scriptPubKey witness s executed s' calls,
      flagSet flags SCRIPT_VERIFY_P2SH = true → flagSet flags SCRIPT_VERIFY_WITNESS = true →
      runOn (verifyScript crypto checker.counting flags scriptSig scriptPubKey witness) (s, 0) =
        (.ok executed, (s', calls)) →
      SpendCounted scriptSig scriptPubKey witness executed calls) := by
  constructor
  · intro flags sigversion script stack s
    have hcalls := @evalScript_counted σ crypto checker flags sigversion script stack (s, 0)
    rw [Nat.zero_add] at hcalls
    exact ⟨hcalls, getSigOpCount_accurate_le script⟩
  · intro flags scriptSig scriptPubKey witness s executed s' calls hp2sh hwitness h
    exact verifyScript_counted hp2sh hwitness h

namespace Regtest

theorem nestedSpend_counted :
    SpendCounted nestedScriptSig nestedScriptPubKey nestedWitness
      ⟨some nestedRedeemScript, some oneOfTwo⟩ 2 ∧
    countWitnessSigOps nestedScriptSig nestedScriptPubKey nestedWitness = 2 :=
  ⟨(sigOp_counts_bound_checks scriptCrypto secondKeyOnly).2 (0x1ffff) _ _ _ () _ () 2 (by decide)
    (by decide) (by decide +kernel), by decide +kernel⟩

end Regtest

end VBitcoin
