import VBitcoin.SigOpAccounting

/-!
**`OP_CHECKMULTISIG` accepts what can be matched in order** — its loop goes once
through the keys and takes every signature at the first key it is valid for.

Without rules on encodings this is no restriction: if the signatures can be
assigned to keys in order at all, they can be assigned this way.
-/

namespace VBitcoin

open Exec List

variable {σ : Type} {crypto : ScriptCrypto} {checker : SignatureChecker σ} {flags : UInt32}
  {sigversion : SigVersion} {scriptCode : CScript} {valid : Bytes → Bytes → Bool}

theorem length_le_of_sublistForall₂ {α β : Type} {R : α → β → Prop} {as : List α} {bs : List β}
    (h : SublistForall₂ R as bs) : as.length ≤ bs.length := by
  obtain ⟨cs, hforall, hsub⟩ := sublistForall₂_iff.mp h
  exact hforall.length_eq ▸ hsub.length_le

theorem sublistForall₂_of_cons {α β : Type} {R : α → β → Prop} {a : α} {as : List α}
    {bs : List β} (h : SublistForall₂ R (a :: as) bs) : SublistForall₂ R as bs := by
  obtain ⟨_, _ | ⟨-, hforall⟩, hsub⟩ := sublistForall₂_iff.mp h
  exact sublistForall₂_iff.mpr ⟨_, hforall, (sublist_cons_self _ _).trans hsub⟩

/-- The first key a signature is valid for is as good as any other. -/
theorem sublistForall₂_cons {α β : Type} {R : α → β → Prop} [DecidableRel R] {a : α} {b : β}
    {as : List α} {bs : List β} : SublistForall₂ R (a :: as) (b :: bs) ↔
      SublistForall₂ R (if R a b then as else a :: as) bs := by
  constructor
  · intro h
    cases h with
    | cons hab htail => rwa [if_pos hab]
    | cons_right h =>
      split
      · exact sublistForall₂_of_cons h
      · exact h
  · intro h
    split at h
    · exact .cons ‹_› h
    · exact .cons_right h

theorem exists_strictMono_iff {α β : Type} {R : α → β → Prop} {as : List α} {bs : List β} :
    SublistForall₂ R as bs ↔
      ∃ f : Fin as.length → Fin bs.length, StrictMono f ∧ ∀ i, R (as.get i) (bs.get (f i)) := by
  rw [sublistForall₂_iff]
  constructor
  · rintro ⟨cs, hforall, hsub⟩
    obtain ⟨f, hf⟩ := sublist_iff_exists_fin_orderEmbedding_get_eq.mp hsub
    have hlen := hforall.length_eq
    refine ⟨fun i => f (i.cast hlen), fun i j hij => f.strictMono hij, fun i => ?_⟩
    rw [← hf]
    exact hforall.get i.isLt (hlen ▸ i.isLt)
  · rintro ⟨f, hmono, hR⟩
    refine ⟨ofFn fun i => bs.get (f i), ?_, ?_⟩
    · rw [forall₂_iff_get]
      exact ⟨by simp, fun i hi _ => by simpa using hR ⟨i, hi⟩⟩
    · rw [sublist_iff_exists_fin_orderEmbedding_get_eq]
      exact ⟨(Fin.castOrderIso (by simp)).toOrderEmbedding.trans (OrderEmbedding.ofStrictMono f hmono),
        fun i => by simp; rfl⟩

/-- The flags that make rules on the encodings of signatures and keys. -/
def encodingRules : UInt32 :=
  SCRIPT_VERIFY_DERSIG ||| SCRIPT_VERIFY_LOW_S ||| SCRIPT_VERIFY_STRICTENC |||
    SCRIPT_VERIFY_WITNESS_PUBKEYTYPE

theorem whenSet_off (hflags : flagSet flags encodingRules = false) {mask : UInt32}
    (hmask : FlagsWithin mask encodingRules) (check : ScriptRun Unit) :
    whenSet flags mask check = pure () := by
  refine if_neg fun hset => ?_
  rw [flagSet, UInt32.and_comm] at hset hflags
  exact absurd (flagSet_mono hmask hset) (Bool.eq_false_iff.mp hflags)

theorem checkOneSig_eq (hflags : flagSet flags encodingRules = false) (vchSig vchPubKey : Bytes) :
    checkOneSig crypto checker flags sigversion scriptCode vchSig vchPubKey =
      liftM (checker.checkSig vchSig vchPubKey scriptCode sigversion) := by
  have hsig : checkSignatureEncoding crypto vchSig flags = pure () := by
    rw [checkSignatureEncoding, whenSet_off hflags (by decide), whenSet_off hflags (by decide),
      whenSet_off hflags (by decide)]
    exact ite_self _
  have hkey : checkPubKeyEncoding vchPubKey flags sigversion = pure () := by
    rw [checkPubKeyEncoding, whenSet_off hflags (by decide), whenSet_off hflags (by decide)]
    rfl
  rw [checkOneSig, hsig, hkey]
  rfl

variable (crypto checker) in
theorem multisigLoop_spec (hflags : flagSet flags encodingRules = false)
    (hvalid : ∀ vchSig vchPubKey s,
      ((checker.checkSig vchSig vchPubKey scriptCode sigversion).run s).1 = valid vchSig vchPubKey) :
    ∀ (keys sigs : List Bytes) (s : σ), ∃ fSuccess s',
      runOn (multisigLoop crypto checker flags sigversion scriptCode keys sigs) s =
        (.ok fSuccess, s') ∧
      (fSuccess = true ↔ SublistForall₂ (fun vchSig vchPubKey => valid vchSig vchPubKey) sigs keys)
  | _, [], s => by
    rw [multisigLoop]
    exact ⟨true, s, rfl, by simp [SublistForall₂.nil]⟩
  | [], vchSig :: sigs, s => by
    rw [multisigLoop]
    refine ⟨false, s, rfl, by simp, fun h => ?_⟩
    have := length_le_of_sublistForall₂ h
    simp at this
  | vchPubKey :: keys, vchSig :: sigs, s => by
    rw [multisigLoop, sublistForall₂_cons, checkOneSig_eq hflags, runOn_bind, runOn_state, hvalid]
    dsimp only
    generalize (if valid vchSig vchPubKey = true then sigs else vchSig :: sigs) = left
    split
    · rename_i hfew
      refine ⟨false, _, rfl, by simp, fun h => ?_⟩
      have := length_le_of_sublistForall₂ h
      omega
    · exact multisigLoop_spec hflags hvalid keys left _

/-- **`CHECKMULTISIG` matches in order**: it succeeds exactly when the signatures can be assigned to
    keys in order, with at most one check for each key. -/
theorem multisig_accepts_matchings (crypto : ScriptCrypto) (checker : SignatureChecker σ)
    (flags : UInt32) (sigversion : SigVersion) (scriptCode : CScript) {valid : Bytes → Bytes → Bool}
    (hflags : flagSet flags encodingRules = false)
    (hvalid : ∀ vchSig vchPubKey s,
      ((checker.checkSig vchSig vchPubKey scriptCode sigversion).run s).1 = valid vchSig vchPubKey)
    (keys sigs : List Bytes) (s : σ) (calls : Nat) :
    ∃ fSuccess s' calls',
      runOn (multisigLoop crypto checker.counting flags sigversion scriptCode keys sigs) (s, calls) =
        (.ok fSuccess, (s', calls')) ∧
      (fSuccess = true ↔ ∃ key : Fin sigs.length → Fin keys.length,
        StrictMono key ∧ ∀ i, valid (sigs.get i) (keys.get (key i)) = true) ∧
      calls' ≤ calls + keys.length := by
  obtain ⟨fSuccess, ⟨s', calls'⟩, hrun, hiff⟩ :=
    multisigLoop_spec crypto checker.counting hflags
      (fun vchSig vchPubKey s => hvalid vchSig vchPubKey s.1) keys sigs (s, calls)
  exact ⟨fSuccess, s', calls', hrun, hiff.trans exists_strictMono_iff,
    (multisigLoop_costs scriptCode keys sigs).of_run hrun⟩

namespace Regtest

theorem secondKey_matched : ∃ s' calls',
    runOn (multisigLoop scriptCrypto secondKeyOnly.counting 0 .BASE [] [[], secondKey] [[1]])
      ((), 0) = (.ok true, (s', calls')) ∧ calls' ≤ 0 + 2 := by
  obtain ⟨fSuccess, s', calls', hrun, hiff, hcalls⟩ := multisig_accepts_matchings scriptCrypto
    secondKeyOnly 0 .BASE [] (by decide) (fun _ _ _ => rfl) [[], secondKey] [[1]] () 0
  have hmatch : fSuccess = true := hiff.mpr ⟨fun _ => 1, by decide, by decide⟩
  exact ⟨s', calls', hmatch ▸ hrun, hcalls⟩

end Regtest

end VBitcoin
