import VBitcoin.MinerLimits

/-!
**The coinbase of a template** — what `CreateNewBlock` builds, before
`checkCoinbaseTxWithPopRewards` and the witness-commitment rule of `ContextualCheckBlock`.
They agree unless the outputs add up to more than `MAX_MONEY`, or a script that is paid to
looks like a witness commitment, so that the builder leaves its own out.
-/

namespace VBitcoin

open List

/-! ### The value of the outputs -/

theorem addValuesOut_isOk_iff : ∀ {vout : List CTxOut} {start : Int}, moneyRange start = true →
    ((∃ total, vout.foldlM CTransaction.addValueOut start = .ok total) ↔
      (∀ txout ∈ vout, 0 ≤ txout.nValue) ∧
        start + (vout.map CTxOut.nValue).sum ≤ MAX_MONEY) := by
  intro vout
  induction vout with
  | nil =>
    intro start hstart
    rw [moneyRange_iff] at hstart
    simp [pure, Except.pure, hstart.2]
  | cons txout rest ih =>
    intro start hstart
    have hrange := moneyRange_iff.mp hstart
    simp only [foldlM_cons, CTransaction.addValueOut, bind_eq_ok, require_eq_ok,
      exists_const, pure_eq_ok_iff, map_cons, sum_cons, forall_mem_cons,
      Bool.and_eq_true]
    constructor
    · rintro ⟨total, mid, ⟨sum, hsum, ⟨hvalue, hmid⟩, rfl⟩, h⟩
      have hrest := (ih hmid).mp ⟨total, h⟩
      rw [addAmount_eq_ok] at hsum
      refine ⟨⟨(moneyRange_iff.mp hvalue).1, hrest.1⟩, ?_⟩
      have hle := hrest.2
      omega
    · rintro ⟨⟨hvalue, hrest⟩, hle⟩
      have hsum : 0 ≤ (rest.map CTxOut.nValue).sum := by
        apply sum_nonneg
        simpa using hrest
      have hvalue' : moneyRange txout.nValue = true := moneyRange_iff.mpr ⟨hvalue, by omega⟩
      have hmid : moneyRange (start + txout.nValue) = true :=
        moneyRange_iff.mpr ⟨by omega, by omega⟩
      obtain ⟨total, htotal⟩ := (ih hmid).mpr ⟨hrest, by omega⟩
      exact ⟨total, _, ⟨_, addAmount_of_moneyRange hstart hvalue', ⟨hvalue', hmid⟩, rfl⟩, htotal⟩

namespace NodeEnv

variable (E : NodeEnv)

/-! ### What the outputs pay to each script -/

/-- Outputs with different scripts: each script is paid the output's value. -/
theorem addPayouts_spec : ∀ {vout : List CTxOut} {payouts : Payouts},
    (vout.map CTxOut.scriptPubKey).Nodup → (∀ txout ∈ vout, txout.scriptPubKey ∉ payouts) →
    (∀ txout ∈ vout, 0 ≤ txout.nValue ∧ txout.nValue ≤ INT64_MAX) →
    ∃ payouts', vout.foldlM addPayout payouts = .ok payouts' ∧
      (∀ txout ∈ vout, payouts'.lookup txout.scriptPubKey = some txout.nValue) ∧
      ∀ script, script ∉ vout.map CTxOut.scriptPubKey →
        payouts'.lookup script = payouts.lookup script := by
  intro vout
  induction vout with
  | nil =>
    intro payouts _ _ _
    exact ⟨payouts, rfl, fun _ h => absurd h not_mem_nil, fun _ _ => rfl⟩
  | cons txout rest ih =>
    intro payouts hnodup hnew hvalues
    rw [map_cons, nodup_cons] at hnodup
    have hvalue := hvalues txout mem_cons_self
    have hnone : payouts.lookup txout.scriptPubKey = none :=
      AList.lookup_eq_none.mpr (hnew txout mem_cons_self)
    have hnull : txout.isNull = false := by
      rw [CTxOut.isNull, beq_eq_false_iff_ne]
      omega
    have hadd : addAmount 0 txout.nValue = .ok txout.nValue := by
      rw [addAmount_eq_ok]
      simp only [INT64_MAX] at hvalue
      omega
    have hstep : addPayout payouts txout =
        .ok (payouts.insert txout.scriptPubKey txout.nValue) := by
      simp only [addPayout, hnull, Bool.false_eq_true, if_false, hnone, Option.getD_none, hadd,
        ok_bind]
      rfl
    have hnew' : ∀ out ∈ rest,
        out.scriptPubKey ∉ payouts.insert txout.scriptPubKey txout.nValue := by
      intro out hout hmem
      rcases (AList.mem_insert _).mp hmem with heq | hmem
      · exact hnodup.1 (heq ▸ mem_map_of_mem hout)
      · exact hnew out (mem_cons_of_mem _ hout) hmem
    obtain ⟨payouts', hfold, hpaid, hsame⟩ := ih hnodup.2 hnew' (forall_mem_cons.mp hvalues).2
    refine ⟨payouts', ?_, ?_, ?_⟩
    · rw [foldlM_cons, hstep, ok_bind]
      exact hfold
    · intro out hout
      rcases mem_cons.mp hout with rfl | hout
      · rw [hsame _ hnodup.1, AList.lookup_insert]
      · exact hpaid out hout
    · intro script hscript
      rw [map_cons, mem_cons, not_or] at hscript
      rw [hsame script hscript.2, AList.lookup_insert_ne hscript.1]

theorem sum_rewards_nonneg {rewards : List (CScript × Int)} (hpos : ∀ r ∈ rewards, 0 < r.2) :
    0 ≤ (rewards.map Prod.snd).sum := by
  apply sum_nonneg
  intro amount hamount
  obtain ⟨r, hr, rfl⟩ := mem_map.mp hamount
  exact (hpos r hr).le

theorem checkRewards_eq_ok {tx : CTransaction} {payouts : Payouts} :
    ∀ {rewards : List (CScript × Int)} {start : Int}, 0 ≤ start →
      (∀ reward ∈ rewards, payouts.lookup reward.1 = some reward.2 ∧ 0 < reward.2) →
      start + (rewards.map Prod.snd).sum ≤ INT64_MAX →
      rewards.foldlM (E.checkReward tx payouts) start =
        .ok (start + (rewards.map Prod.snd).sum) := by
  intro rewards
  induction rewards with
  | nil =>
    intro start _ _ _
    simp [pure, Except.pure]
  | cons reward rest ih =>
    intro start hstart hpaid hle
    rw [map_cons, sum_cons] at hle
    have hreward := hpaid reward mem_cons_self
    have hrest : ∀ r ∈ rest, payouts.lookup r.1 = some r.2 ∧ 0 < r.2 :=
      (forall_mem_cons.mp hpaid).2
    have hsum := sum_rewards_nonneg fun r hr => (hrest r hr).2
    have hadd : addAmount start reward.2 = .ok (start + reward.2) := by
      rw [addAmount_eq_ok]
      simp only [INT64_MAX] at hle
      omega
    have hstep : E.checkReward tx payouts start reward = .ok (start + reward.2) := by
      simp only [checkReward, hreward.1, beq_self_eq_true, require_true, ok_bind, hadd]
    rw [foldlM_cons, hstep, ok_bind, ih (by omega) hrest (by omega), map_cons,
      sum_cons, Int.add_assoc]

/-! ### The rewards that are due -/

theorem addReward_pos {tip : CBlockIndex} {result result' : PoPRewards} {reward : Bytes × Nat}
    (h : E.addReward tip result reward = .ok result')
    (hresult : ∀ r ∈ result.entries, 0 < r.2 ∧ r.2 ≤ INT64_MAX) :
    ∀ r ∈ result'.entries, 0 < r.2 ∧ r.2 ≤ INT64_MAX := by
  unfold addReward at h
  dsimp only at h
  split at h
  · rename_i hpos
    simp only [bind_eq_ok, require_eq_ok, exists_const, pure_eq_ok_iff, decide_eq_true_eq] at h
    obtain ⟨hle, rfl⟩ := h
    intro r hr
    rcases OrderedMap.mem_insert scriptLess hr with rfl | hr
    · exact ⟨Int.natCast_pos.mpr hpos, hle⟩
    · exact hresult r hr
  · cases h
    exact hresult

variable {rewards : PoPRewards} {pindexPrev : CBlockIndex} {scriptPubKeyIn : CScript} {nFees : Int}

theorem getPopRewards_pos {tip : CBlockIndex} (h : E.getPopRewards tip = .ok rewards) :
    ∀ r ∈ rewards.entries, 0 < r.2 ∧ r.2 ≤ INT64_MAX := by
  unfold getPopRewards at h
  split at h
  · cases h
    exact fun _ hr => absurd hr not_mem_nil
  · obtain ⟨_, -, h⟩ := bind_eq_ok.mp h
    split at h
    · cases h
    · exact foldlM_induction (fun _ result => ∀ r ∈ result.entries, 0 < r.2 ∧ r.2 ≤ INT64_MAX)
        (fun _ _ _ _ hresult hstep => E.addReward_pos hstep hresult)
        (fun _ hr => absurd hr not_mem_nil) h

variable (nHeight : Nat)

theorem getBlockSubsidy_bounds :
    0 ≤ E.getBlockSubsidy nHeight ∧ E.getBlockSubsidy nHeight ≤ 50 * COIN := by
  have hdiv : ∀ (a : Int) (n : Nat), 0 ≤ a → a ≤ 50 * COIN →
      0 ≤ a / 2 ^ n ∧ a / 2 ^ n ≤ 50 * COIN := by
    intro a n ha hle
    exact ⟨Int.ediv_nonneg ha (pow_nonneg (by decide) n), (Int.ediv_le_self _ ha).trans hle⟩
  have hperiod : ∀ period ∈ subsidyPeriods, 0 ≤ period.2 ∧ period.2 ≤ 50 * COIN := by decide
  have hmultiplier : 0 ≤ E.getSubsidyMultiplier nHeight ∧
      E.getSubsidyMultiplier nHeight ≤ 50 * COIN := by
    unfold getSubsidyMultiplier
    dsimp only
    split
    · exact ⟨le_refl _, by decide⟩
    · split
      · rename_i period hfind
        have hbounds := hperiod period (mem_of_find?_eq_some hfind)
        exact hdiv _ _ hbounds.1 hbounds.2
      · exact hdiv _ _ (by decide) (by decide)
  unfold getBlockSubsidy
  split
  · have hcoin : COIN = 100000000 := rfl
    omega
  · dsimp only
    split
    · exact ⟨le_refl _, by decide⟩
    · exact hdiv _ _ (by decide) (le_refl _)

/-! ### The two rules -/

def templateTotal (nFees : Int) (rewards : PoPRewards) : Int :=
  nFees + E.getBlockSubsidy nHeight +
    if E.isPopActive nHeight then (rewards.entries.map Prod.snd).sum else 0

theorem templateOutputs_total (scriptPubKeyIn : CScript) (nFees : Int) (rewards : PoPRewards) :
    ((E.templateOutputs nHeight scriptPubKeyIn nFees rewards).map CTxOut.nValue).sum =
      E.templateTotal nHeight nFees rewards := by
  unfold templateOutputs templateTotal
  split <;> simp [Function.comp_def]

theorem templateCoinbase_vout (pindexPrev : CBlockIndex) (vout : List CTxOut)
    (commitment : UInt256) :
    (E.templateCoinbase pindexPrev vout commitment).vout =
      vout ++ if E.commits vout then [⟨0, commitmentScript commitment⟩] else [] := rfl

theorem templateCoinbase_total (pindexPrev : CBlockIndex) (vout : List CTxOut)
    (commitment : UInt256) :
    ((E.templateCoinbase pindexPrev vout commitment).vout.map CTxOut.nValue).sum =
      (vout.map CTxOut.nValue).sum := by
  rw [templateCoinbase_vout]
  split <;> simp

theorem mem_templateCoinbase {vout : List CTxOut} {commitment : UInt256} {txout : CTxOut} :
    txout ∈ (E.templateCoinbase pindexPrev vout commitment).vout ↔
      txout ∈ vout ∨ E.commits vout = true ∧ txout = ⟨0, commitmentScript commitment⟩ := by
  rw [templateCoinbase_vout]
  split
  · rename_i hcommits
    simp [hcommits]
  · rename_i hcommits
    simp [hcommits]

theorem getValueOut_templateCoinbase_iff (commitment : UInt256)
    (hpos : ∀ r ∈ rewards.entries, 0 < r.2 ∧ r.2 ≤ INT64_MAX) :
    (∃ value, (E.templateCoinbase pindexPrev (E.templateOutputs (pindexPrev.nHeight + 1)
        scriptPubKeyIn nFees rewards) commitment).getValueOut = .ok value) ↔
      0 ≤ nFees + E.getBlockSubsidy (pindexPrev.nHeight + 1) ∧
        E.templateTotal (pindexPrev.nHeight + 1) nFees rewards ≤ MAX_MONEY := by
  have hzero : moneyRange 0 = true := by decide
  rw [CTransaction.getValueOut, addValuesOut_isOk_iff hzero, templateCoinbase_total,
    templateOutputs_total, Int.zero_add]
  refine and_congr_left fun _ => ?_
  constructor
  · intro h
    exact h _ ((E.mem_templateCoinbase).mpr (.inl mem_cons_self))
  · intro hpow txout htxout
    rcases (E.mem_templateCoinbase).mp htxout with htxout | ⟨-, rfl⟩
    · rcases mem_cons.mp htxout with rfl | htxout
      · exact hpow
      · split at htxout
        · obtain ⟨r, hr, rfl⟩ := mem_map.mp htxout
          exact (hpos r hr).1.le
        · exact absurd htxout not_mem_nil
    · exact le_refl _

/-- The outputs that count as PoP payouts: those after the miner's. -/
def payoutOutputs (scriptPubKeyIn : CScript) (nFees : Int) (rewards : PoPRewards)
    (commitment : UInt256) : List CTxOut :=
  (if E.isPopActive nHeight then rewards.entries.map fun reward => ⟨reward.2, reward.1⟩ else []) ++
    if E.commits (E.templateOutputs nHeight scriptPubKeyIn nFees rewards) then
      [⟨0, commitmentScript commitment⟩]
    else []

theorem payoutOutputs_nodup (scriptPubKeyIn : CScript) (nFees : Int)
    (rewards : PoPRewards) (commitment : UInt256) :
    ((E.payoutOutputs nHeight scriptPubKeyIn nFees rewards commitment).map
      CTxOut.scriptPubKey).Nodup := by
  have hrewards : ((if E.isPopActive nHeight then
      rewards.entries.map fun reward => (⟨reward.2, reward.1⟩ : CTxOut) else []).map
        CTxOut.scriptPubKey).Nodup := by
    split
    · simpa [Function.comp_def] using rewards.nodup
    · exact nodup_nil
  unfold payoutOutputs
  split_ifs with hpop hcommits
  · rw [if_pos hpop] at hrewards
    rw [map_append, nodup_append]
    refine ⟨hrewards, nodup_singleton _, ?_⟩
    intro script hscript script' hscript' heq
    obtain ⟨txout, htxout, rfl⟩ := mem_map.mp hscript
    obtain rfl : script' = commitmentScript commitment := by simpa using hscript'
    -- the reward's script would have kept the commitment out
    have hshape : hasCommitment (E.templateOutputs nHeight scriptPubKeyIn nFees rewards) =
        true := by
      rw [hasCommitment, any_eq_true]
      refine ⟨txout, ?_, heq ▸ isWitnessCommitment_commitmentScript commitment⟩
      rw [templateOutputs, if_pos hpop]
      exact mem_cons_of_mem _ htxout
    simp [commits, hshape] at hcommits
  · rw [if_pos hpop] at hrewards
    simpa using hrewards
  · exact nodup_singleton _
  · exact nodup_nil

theorem payoutOutputs_bounds {nHeight : Nat} {commitment : UInt256}
    (hpos : ∀ r ∈ rewards.entries, 0 < r.2 ∧ r.2 ≤ INT64_MAX) :
    ∀ txout ∈ E.payoutOutputs nHeight scriptPubKeyIn nFees rewards commitment,
      0 ≤ txout.nValue ∧ txout.nValue ≤ INT64_MAX := by
  intro txout htxout
  rcases mem_append.mp htxout with htxout | htxout
  · split at htxout
    · obtain ⟨r, hr, rfl⟩ := mem_map.mp htxout
      exact ⟨(hpos r hr).1.le, (hpos r hr).2⟩
    · exact absurd htxout not_mem_nil
  · split at htxout
    · obtain rfl := mem_singleton.mp htxout
      exact ⟨le_refl 0, show (0 : Int) ≤ INT64_MAX by decide⟩
    · exact absurd htxout not_mem_nil

/-- Accepted when the rewards were put in and the total is an amount. -/
theorem checkCoinbase_template_iff (commitment : UInt256)
    (hpos : ∀ r ∈ rewards.entries, 0 < r.2 ∧ r.2 ≤ INT64_MAX) :
    E.checkCoinbaseWithRewards (E.templateCoinbase pindexPrev
        (E.templateOutputs (pindexPrev.nHeight + 1) scriptPubKeyIn nFees rewards) commitment) nFees
        (pindexPrev.nHeight + 1) rewards = .ok () ↔
      (E.isPopActive (pindexPrev.nHeight + 1) = true ∨ rewards.entries = []) ∧
        0 ≤ nFees + E.getBlockSubsidy (pindexPrev.nHeight + 1) ∧
        E.templateTotal (pindexPrev.nHeight + 1) nFees rewards ≤ MAX_MONEY := by
  obtain ⟨payouts, hfold, hpaid, hsame⟩ := @addPayouts_spec _ ∅
    (E.payoutOutputs_nodup (pindexPrev.nHeight + 1) scriptPubKeyIn nFees rewards commitment)
    (fun _ _ h => AList.notMem_empty _ h) (E.payoutOutputs_bounds hpos)
  have htail : (E.templateCoinbase pindexPrev (E.templateOutputs (pindexPrev.nHeight + 1)
      scriptPubKeyIn nFees rewards) commitment).vout.tail =
      E.payoutOutputs (pindexPrev.nHeight + 1) scriptPubKeyIn nFees rewards commitment := rfl
  simp only [checkCoinbaseWithRewards, htail, hfold, ok_bind, bind_eq_ok, require_eq_ok,
    exists_const, decide_eq_true_eq]
  constructor
  · rintro ⟨-, -, total, htotal, value, hvalue, -, -, -, -, -⟩
    refine ⟨?_, (E.getValueOut_templateCoinbase_iff commitment hpos).mp ⟨value, hvalue⟩⟩
    rcases hentries : rewards.entries with _ | ⟨reward, rest⟩
    · exact .inr rfl
    · left
      by_contra hpop
      -- without payouts in the coinbase the first reward is missing
      have hreward := hpos reward (hentries ▸ mem_cons_self)
      have hlookup : payouts.lookup reward.1 = some reward.2 := by
        rw [hentries, foldlM_cons, bind_eq_ok] at htotal
        obtain ⟨mid, hmid, -⟩ := htotal
        unfold checkReward at hmid
        split at hmid
        · cases hmid
        · rename_i amount hamount
          simp only [bind_eq_ok, require_eq_ok, exists_const, beq_iff_eq] at hmid
          rw [hamount, hmid.1]
      by_cases hmem : reward.1 ∈ (E.payoutOutputs (pindexPrev.nHeight + 1) scriptPubKeyIn nFees
          rewards commitment).map CTxOut.scriptPubKey
      · obtain ⟨txout, htxout, hscript⟩ := mem_map.mp hmem
        have hzero : txout.nValue = 0 := by
          rw [payoutOutputs, if_neg hpop, nil_append] at htxout
          split at htxout
          · rw [mem_singleton.mp htxout]
          · exact absurd htxout not_mem_nil
        have hamount := hpaid txout htxout
        rw [hscript, hlookup, hzero, Option.some.injEq] at hamount
        omega
      · rw [hsame _ hmem, AList.lookup_empty] at hlookup
        cases hlookup
  · rintro ⟨hdue, hpow, hle⟩
    have hsum := sum_rewards_nonneg fun r hr => (hpos r hr).1
    have hrewards : ∀ r ∈ rewards.entries, payouts.lookup r.1 = some r.2 ∧ 0 < r.2 := by
      intro r hr
      refine ⟨?_, (hpos r hr).1⟩
      rcases hdue with hpop | hnone
      · apply hpaid ⟨r.2, r.1⟩
        rw [payoutOutputs, if_pos hpop]
        exact mem_append_left _ (mem_map_of_mem hr)
      · exact absurd (hnone ▸ hr) not_mem_nil
    have htotal : E.templateTotal (pindexPrev.nHeight + 1) nFees rewards =
        nFees + E.getBlockSubsidy (pindexPrev.nHeight + 1) +
          (rewards.entries.map Prod.snd).sum := by
      rcases hdue with hpop | hnone
      · rw [templateTotal, if_pos hpop]
      · rw [templateTotal, hnone]
        split <;> rfl
    obtain ⟨value, hvalue⟩ := (E.getValueOut_templateCoinbase_iff commitment hpos).mpr ⟨hpow, hle⟩
    have hvalueEq := addValuesOut_eq_ok hvalue
    rw [templateCoinbase_total, templateOutputs_total, htotal, Int.zero_add] at hvalueEq
    have hsubsidy := E.getBlockSubsidy_bounds (pindexPrev.nHeight + 1)
    have hmoney : MAX_MONEY = 2100000000000000 := rfl
    have hcoin : COIN = 100000000 := rfl
    have hmax : INT64_MAX = 9223372036854775807 := rfl
    refine ⟨?_, ?_, _, E.checkRewards_eq_ok (le_refl 0) hrewards (by omega), value, hvalue, _,
      addAmount_eq_ok.mpr ⟨rfl, by omega, by omega⟩, _,
      addAmount_eq_ok.mpr ⟨rfl, by omega, by omega⟩, by omega⟩
    · rw [templateCoinbase_vout, length_append]
      rcases hdue with hpop | hnone
      · simp only [templateOutputs, if_pos hpop, length_cons, length_map]
        omega
      · simp [hnone]
    · rfl

variable (vout : List CTxOut)

theorem commitmentIndexFrom_lt : ∀ {o pos : Nat} {commitpos : Option Nat},
    commitmentIndexFrom o vout commitpos = some pos →
      commitpos = some pos ∨ o ≤ pos ∧ pos < o + vout.length := by
  induction vout with
  | nil => intro o pos commitpos h; exact .inl h
  | cons txout rest ih =>
    intro o pos commitpos h
    rw [commitmentIndexFrom] at h
    rcases ih h with hpos | hpos
    · split at hpos
      · cases hpos
        right
        rw [length_cons]
        omega
      · exact .inl hpos
    · right
      rw [length_cons]
      omega

theorem commitmentIndexFrom_concat (last : CTxOut) :
    ∀ (o : Nat) (commitpos : Option Nat),
      commitmentIndexFrom o (vout ++ [last]) commitpos =
        if isWitnessCommitment last.scriptPubKey then some (o + vout.length)
        else commitmentIndexFrom o vout commitpos := by
  induction vout with
  | nil => intro o commitpos; simp [commitmentIndexFrom]
  | cons txout rest ih =>
    intro o commitpos
    rw [cons_append, commitmentIndexFrom, ih, length_cons, commitmentIndexFrom]
    congr 2
    omega

/-- The last output that looks like a commitment has the right one in it. -/
def commitmentRight (commitment : UInt256) : Prop :=
  ∀ pos, commitmentIndexFrom 0 vout none = some pos → ∀ txout, vout[pos]? = some txout →
    (txout.scriptPubKey.drop 6).take 32 = serializeUInt256 commitment

/-- Accepted unless the commitment found in the outputs is a wrong one. -/
theorem checkWitnessCommitment_template_iff {block : CBlock}
    {vout : List CTxOut} {txs : List CTransaction} (hheight : pindexPrev.nHeight + 1 < INT_MAX)
    (hvtx : block.vtx = E.templateCoinbase pindexPrev vout (E.templateCommitment txs) :: txs)
    (htxs : ∀ tx ∈ txs, E.isWitnessEnabled (some pindexPrev) = true ∨ tx.hasWitness = false) :
    E.checkWitnessCommitment block (pindexPrev.nHeight + 1) = .ok () ↔
      (E.isWitnessEnabled (some pindexPrev) = true →
        commitmentRight vout (E.templateCommitment txs)) := by
  have hcommitment : E.witnessCommitment block templateNonce = E.templateCommitment txs := by
    rw [witnessCommitment, blockWitnessMerkleRoot, hvtx]
    rfl
  have hnonce : templateNonce.length = 32 := rfl
  by_cases henabled : E.isWitnessEnabled (some pindexPrev) = true
  · have hsegwit : E.consensus.SegwitHeight ≤ pindexPrev.nHeight + 1 := of_decide_eq_true henabled
    have hdefined : (E.consensus.SegwitHeight != INT_MAX) = true := by
      rw [bne_iff_ne]
      omega
    -- either way there is a commitment, and so a reserved value
    have hreserves : E.reserves vout pindexPrev = true := by
      simp [reserves, commits, hdefined, henabled]
    have hcheck : ∀ pos, E.checkCommitmentAt block pos =
        (require ((vout ++ if E.commits vout then
            [⟨0, commitmentScript (E.templateCommitment txs)⟩] else [])[pos]?.any fun txout =>
              serializeUInt256 (E.templateCommitment txs) == (txout.scriptPubKey.drop 6).take 32)
          (.blockInvalid .BLOCK_MUTATED "bad-witness-merkle-match"
            "ContextualCheckBlock : witness merkle commitment mismatch") >>= fun _ => pure true) := by
      intro pos
      simp only [checkCommitmentAt, hvtx, templateCoinbase, hreserves, if_true, hnonce,
        hcommitment]
    have hindex : getWitnessCommitmentIndex block = commitmentIndexFrom 0 (vout ++
        if E.commits vout then [⟨0, commitmentScript (E.templateCommitment txs)⟩] else [])
          none := by
      rw [getWitnessCommitmentIndex, hvtx]
      rfl
    simp only [checkWitnessCommitment, if_pos hsegwit, hindex, henabled, true_implies]
    cases hshape : hasCommitment vout with
    | false =>
      have hcommits : E.commits vout = true := by simp [commits, hdefined, hshape]
      simp only [hcommits, if_true] at hcheck
      simp only [hcommits, if_true, commitmentIndexFrom_concat,
        isWitnessCommitment_commitmentScript, Nat.zero_add, hcheck, getElem?_concat_length,
        Option.any_some]
      have hbytes : ((commitmentScript (E.templateCommitment txs)).drop 6).take 32 =
          serializeUInt256 (E.templateCommitment txs) := by
        simp [commitmentScript, serializeUInt256]
      rw [hbytes, beq_self_eq_true]
      refine iff_of_true rfl fun pos hpos => ?_
      have hsome := commitmentIndexFrom_isSome vout 0 none
      rw [hpos, hshape] at hsome
      cases hsome
    | true =>
      have hcommits : E.commits vout = false := by simp [commits, hshape]
      simp only [hcommits, Bool.false_eq_true, if_false, append_nil] at hcheck
      simp only [hcommits, Bool.false_eq_true, if_false, append_nil]
      have hsome := commitmentIndexFrom_isSome vout 0 none
      rw [hshape] at hsome
      obtain ⟨pos, hpos⟩ := Option.isSome_iff_exists.mp hsome
      have hlt : pos < vout.length := by
        rcases commitmentIndexFrom_lt vout hpos with h | h
        · cases h
        · omega
      simp only [hpos, hcheck, getElem?_eq_getElem hlt, Option.any_some, bind_eq_ok,
        require_eq_ok, exists_const, pure_eq_ok_iff, beq_iff_eq]
      constructor
      · rintro ⟨_, ⟨hequal, -⟩, -⟩ pos' hpos' txout htxout
        cases hpos.symm.trans hpos'
        rw [getElem?_eq_getElem hlt] at htxout
        cases htxout
        exact hequal.symm
      · intro hright
        refine ⟨true, ⟨?_, rfl⟩, rfl⟩
        exact (hright pos hpos _ (getElem?_eq_getElem hlt)).symm
  · have hsegwit : ¬ E.consensus.SegwitHeight ≤ pindexPrev.nHeight + 1 :=
      fun h => henabled (decide_eq_true h)
    have hcoinbase : (E.templateCoinbase pindexPrev vout
        (E.templateCommitment txs)).hasWitness = false := by
      simp [templateCoinbase, CTransaction.hasWitness, reserves, henabled]
    have hothers : ∀ tx ∈ txs, tx.hasWitness = false := by
      intro tx htx
      exact (htxs tx htx).resolve_left henabled
    simp only [checkWitnessCommitment, hsegwit, if_false, henabled, Bool.false_eq_true,
      false_implies, iff_true, hvtx]
    simpa [hcoinbase, require_eq_ok] using hothers

theorem selectTxs_witness {context : TemplateContext} {packages : List Package} :
    ∀ tx ∈ (E.selectTxs context pindexPrev packages).inBlock.map CTxMemPoolEntry.tx,
      E.isWitnessEnabled (some pindexPrev) = true ∨ tx.hasWitness = false := by
  intro tx htx
  obtain ⟨entry, hentry, rfl⟩ := mem_map.mp htx
  rcases BlockAssembler.mem_addPackageTxs hentry with hmem | ⟨package, -, htest, hmem⟩
  · exact absurd hmem not_mem_nil
  · rw [BlockAssembler.testPackageTransactions, all_eq_true] at htest
    have hentry := htest entry hmem
    simp only [Bool.and_eq_true, Bool.or_eq_true, Bool.not_eq_true'] at hentry
    exact hentry.2

/-- The index of a block on top of a tip, as `TestBlockValidity` sets it up. -/
def nextIndex (block : CBlock) (pindexPrev : CBlockIndex) : CBlockIndex :=
  ⟨E.indexEntry block.header, pindexPrev.entry :: pindexPrev.ancestors⟩

/-- By the coinbase rule with the selected fees, and by the witness rule. -/
def TemplateAccepted (context : TemplateContext) (pindexPrev : CBlockIndex)
    (scriptPubKeyIn : CScript) (packages : List Package) : Prop :=
  ∃ block coinbase, E.createNewBlock context pindexPrev scriptPubKeyIn packages = .ok block ∧
    block.vtx.head? = some coinbase ∧
    E.checkCoinbaseTxWithPopRewards coinbase (E.selectTxs context pindexPrev packages).nFees
      (E.nextIndex block pindexPrev) = .ok () ∧
    E.checkWitnessCommitment block (pindexPrev.nHeight + 1) = .ok ()

/-- **When a template is acceptable**: the rewards due are those put in, the coinbase pays an
    amount, and what looks like a commitment is the right one. -/
theorem templateAccepted_iff {context : TemplateContext} {pindexPrev : CBlockIndex}
    {scriptPubKeyIn : CScript} {packages : List Package} {rewards : PoPRewards}
    (hrewards : E.getPopRewards pindexPrev = .ok rewards)
    (hheight : pindexPrev.nHeight + 1 < INT_MAX) :
    E.TemplateAccepted context pindexPrev scriptPubKeyIn packages ↔
      (E.isPopActive (pindexPrev.nHeight + 1) = true ∨ rewards.entries = []) ∧
      0 ≤ (E.selectTxs context pindexPrev packages).nFees +
        E.getBlockSubsidy (pindexPrev.nHeight + 1) ∧
      E.templateTotal (pindexPrev.nHeight + 1) (E.selectTxs context pindexPrev packages).nFees
        rewards ≤ MAX_MONEY ∧
      (E.isWitnessEnabled (some pindexPrev) = true →
        commitmentRight (E.templateOutputs (pindexPrev.nHeight + 1) scriptPubKeyIn
            (E.selectTxs context pindexPrev packages).nFees rewards)
          (E.templateCommitment
            ((E.selectTxs context pindexPrev packages).inBlock.map CTxMemPoolEntry.tx))) := by
  have hpos := E.getPopRewards_pos hrewards
  have hcreate (block : CBlock) :
      E.createNewBlock context pindexPrev scriptPubKeyIn packages = .ok block ↔ _ ∧ _ :=
    E.createNewBlock_eq_ok fun _ => hrewards
  have hcoinbase : ∀ block coinbase nFees,
      E.checkCoinbaseTxWithPopRewards coinbase nFees (E.nextIndex block pindexPrev) =
        E.checkCoinbaseWithRewards coinbase nFees (pindexPrev.nHeight + 1) rewards := by
    intro block coinbase nFees
    have hpprev : (E.nextIndex block pindexPrev).pprev = some pindexPrev := rfl
    rw [checkCoinbaseTxWithPopRewards, hpprev]
    simp only [hrewards, ok_bind]
    rfl
  constructor
  · rintro ⟨block, coinbase, hblock, hhead, hcheck, hwitness⟩
    obtain ⟨-, rfl⟩ := (hcreate block).mp hblock
    cases hhead
    rw [hcoinbase, E.checkCoinbase_template_iff _ hpos] at hcheck
    rw [E.checkWitnessCommitment_template_iff hheight rfl E.selectTxs_witness] at hwitness
    exact ⟨hcheck.1, hcheck.2.1, hcheck.2.2, hwitness⟩
  · rintro ⟨hdue, hpow, htotal, hwitness⟩
    have hvalue : addAmount (E.selectTxs context pindexPrev packages).nFees
        (E.getBlockSubsidy (pindexPrev.nHeight + 1)) =
          .ok ((E.selectTxs context pindexPrev packages).nFees +
            E.getBlockSubsidy (pindexPrev.nHeight + 1)) := by
      have hmoney : MAX_MONEY = 2100000000000000 := rfl
      have hsum := sum_rewards_nonneg fun r hr => (hpos r hr).1
      rw [templateTotal] at htotal
      refine addAmount_eq_ok.mpr ⟨rfl, by omega, ?_⟩
      split at htotal <;> omega
    refine ⟨_, _, (hcreate _).mpr ⟨⟨_, hvalue⟩, rfl⟩, rfl, ?_, ?_⟩
    · rw [hcoinbase, E.checkCoinbase_template_iff _ hpos]
      exact ⟨hdue, hpow, htotal⟩
    · rw [E.checkWitnessCommitment_template_iff hheight rfl E.selectTxs_witness]
      exact hwitness

end NodeEnv

namespace Regtest

/-- A payout script that looks like a witness commitment, to nothing. -/
def commitmentLike : CScript := commitmentScript 0

/-- No own commitment is added, and the block is refused as mutated. -/
theorem commitmentLike_refused :
    ¬ (payingEnv commitmentLike).TemplateAccepted noContext popTip [OP_1] [] := by
  rintro ⟨block, coinbase, hblock, -, -, hwitness⟩
  have htemplate : (payingEnv commitmentLike).createNewBlock noContext popTip [OP_1] [] =
      .ok ((payingEnv commitmentLike).templateBlock noContext popTip [OP_1] []
        (oneReward commitmentLike)) := by
    decide +kernel
  have hwrong : (payingEnv commitmentLike).checkWitnessCommitment ((payingEnv
      commitmentLike).templateBlock noContext popTip [OP_1] [] (oneReward commitmentLike))
        (popTip.nHeight + 1) ≠ .ok () := by
    decide +kernel
  rw [htemplate, Except.ok.injEq] at hblock
  exact hwrong (hblock ▸ hwitness)

theorem ordinaryScript_accepted :
    (payingEnv [OP_1, OP_1]).TemplateAccepted noContext popTip [OP_1] [onePackage] := by
  apply ((payingEnv [OP_1, OP_1]).templateAccepted_iff (oneReward_due _) (by decide +kernel)).mpr
  refine ⟨by decide +kernel, by decide +kernel, by decide +kernel, fun _ pos hpos => ?_⟩
  have hnone : commitmentIndexFrom 0 ((payingEnv [OP_1, OP_1]).templateOutputs
      (popTip.nHeight + 1) [OP_1] ((payingEnv [OP_1, OP_1]).selectTxs noContext popTip
        [onePackage]).nFees (oneReward [OP_1, OP_1])) none = none := by
    decide +kernel
  rw [hnone] at hpos
  cases hpos

end Regtest

end VBitcoin
