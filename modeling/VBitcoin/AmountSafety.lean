import VBitcoin.CoinbaseTemplate
import VBitcoin.StoreTotal

/-!
**No amount overflows** — the 64-bit additions that `ConnectBlock` makes on the coins of a
ledger chain, in a block that passed `CheckBlock`.  The rewards need no bound of their own:
only those that the coinbase pays are added up, to different scripts, and its outputs are at
most `MAX_MONEY` together.
-/

namespace VBitcoin

open WriteLog List

def NotOverflow (stop : Stop) : Prop := stop ≠ .overflow

abbrev NoOverflow {α : Type} (x : Run α) : Prop := StopsWith NotOverflow x

theorem noOverflow_require (condition : Bool) {stop : Stop} (h : NotOverflow stop) :
    NoOverflow (require condition stop) := stopsWith_require h condition

theorem NoOverflow.bind_pure {α β : Type} {x : Run α} (h : NoOverflow x) {f : α → β} :
    NoOverflow (x >>= fun a => pure (f a)) :=
  stopsWith_bind h fun a _ => stopsWith_ok _ (f a)

/-! ### The inputs of a transaction -/

def ValuesInRange (coins : Utxo) : Prop :=
  ∀ o coin, coins o = some coin → moneyRange coin.out.nValue = true

variable {nSpendHeight : Nat} {tx : CTransaction}

variable {nValueIn : Int} {coin : Coin} {c : CCoinsViewCache}

theorem addValueIn_noOverflow (htotal : moneyRange nValueIn = true)
    (hcoin : coin.isSpent = false → moneyRange coin.out.nValue = true) :
    NoOverflow (addValueIn nSpendHeight nValueIn coin) := by
  refine stopsWith_require_bind nofun fun hunspent => ?_
  refine stopsWith_require_bind nofun fun _ => ?_
  rw [Bool.not_eq_true'] at hunspent
  rw [addAmount_of_moneyRange htotal (hcoin hunspent), ok_bind]
  exact stopsWith_require_bind nofun fun _ => stopsWith_ok _ _

theorem addValueIn_inRange {total : Int}
    (h : addValueIn nSpendHeight nValueIn coin = .ok total) : moneyRange total = true := by
  simp only [addValueIn, bind_eq_ok, require_eq_ok, exists_const, pure_eq_ok_iff,
    Bool.and_eq_true] at h
  obtain ⟨-, -, sum, -, ⟨-, hsum⟩, rfl⟩ := h
  exact hsum

theorem addValuesIn_noOverflow {coins : List Coin} :
    ∀ {start : Int}, moneyRange start = true →
      (∀ coin ∈ coins, coin.isSpent = false → moneyRange coin.out.nValue = true) →
      NoOverflow (coins.foldlM (addValueIn nSpendHeight) start) := by
  induction coins with
  | nil =>
    intro start _ _
    exact stopsWith_ok _ start
  | cons coin rest ih =>
    intro start hstart hcoins
    rw [foldlM_cons]
    apply stopsWith_bind (addValueIn_noOverflow hstart (hcoins coin mem_cons_self))
    intro mid hmid
    exact ih (addValueIn_inRange hmid) (forall_mem_cons.mp hcoins).2

theorem getValueOut_of_wellFormed (h : TxWellFormed tx) : tx.getValueOut = .ok tx.valueOut := by
  have htotal := moneyRange_iff.mp h.total
  obtain ⟨value, hvalue⟩ := (addValuesOut_isOk_iff (by decide)).mpr
    ⟨fun txout htxout => (moneyRange_iff.mp (h.values txout htxout)).1,
      (Int.zero_add _).trans_le htotal.2⟩
  rw [← getValueOut_eq_ok hvalue]
  exact hvalue

theorem checkTxInputs_noOverflow
    (hok : c.Ok) (hwell : TxWellFormed tx) (hvalues : ValuesInRange c.utxo) :
    NoOverflow (checkTxInputs tx c nSpendHeight) := by
  have hread : ReadSpec c (c.haveInputs tx).2 := by
    unfold CCoinsViewCache.haveInputs
    split
    · exact ReadSpec.refl hok
    · exact (haveAll_spec _ hok).2
  obtain ⟨hcoins, -⟩ := accessAll_spec (tx.vin.map CTxIn.prevout) hread.ok
  unfold checkTxInputs
  generalize c.haveInputs tx = result at hread hcoins ⊢
  obtain ⟨available, inputs⟩ := result
  refine stopsWith_require_bind nofun fun _ => ?_
  apply stopsWith_bind
  · apply addValuesIn_noOverflow (by decide)
    rw [hcoins, hread.utxo]
    intro coin hcoin hunspent
    obtain ⟨o, -, rfl⟩ := mem_map.mp hcoin
    cases hheld : c.utxo o with
    | none =>
      rw [hheld] at hunspent
      cases hunspent
    | some coin => exact hvalues o coin hheld
  · intro nValueIn _
    rw [getValueOut_of_wellFormed hwell, ok_bind]
    refine stopsWith_require_bind nofun fun _ => ?_
    exact stopsWith_require_bind nofun fun _ => stopsWith_ok _ _

theorem checkTxInputs_inRange {c' : CCoinsViewCache}
    {fee : Int} (h : checkTxInputs tx c nSpendHeight = .ok (fee, c')) : moneyRange fee = true := by
  simp only [checkTxInputs, bind_eq_ok, require_eq_ok, exists_const, pure_eq_ok_iff,
    Prod.mk.injEq] at h
  obtain ⟨-, _, -, _, -, -, hfee, rfl, -⟩ := h
  exact hfee

/-! ### What needs no amounts -/

theorem sequenceLocks_noOverflow (tx : CTransaction) (verifySequence : Bool)
    (prevHeights : List Nat) (pindex : CBlockIndex) :
    NoOverflow (sequenceLocks tx verifySequence prevHeights pindex) := by
  have hstep : ∀ locks input, NoOverflow (sequenceLockStep pindex locks input) := by
    intro locks input
    unfold sequenceLockStep
    dsimp only
    split
    · exact stopsWith_ok _ _
    · split
      · split
        · exact stopsWith_error (by simp [NotOverflow])
        · exact stopsWith_ok _ _
      · exact stopsWith_ok _ _
  unfold sequenceLocks
  dsimp only
  split
  · refine stopsWith_bind ?_ fun locks _ => ?_
    · exact stopsWith_foldlM (fun _ => True) (fun _ _ _ _ _ => trivial)
        (fun locks input _ => hstep locks input) trivial
    · split
      · exact stopsWith_error (by simp [NotOverflow])
      · exact stopsWith_ok _ _
  · split
    · exact stopsWith_error (by simp [NotOverflow])
    · exact stopsWith_ok _ _

theorem getTransactionSigOpCost_noOverflow (tx : CTransaction) (c : CCoinsViewCache)
    (flags : ScriptFlags) : NoOverflow (getTransactionSigOpCost tx c flags) := by
  unfold getTransactionSigOpCost
  split
  · exact stopsWith_ok _ _
  · exact stopsWith_require_bind nofun fun _ => stopsWith_ok _ _

theorem spendInputs_noOverflow : ∀ (outpoints : List COutPoint) (c : CCoinsViewCache),
    NoOverflow (spendInputs c outpoints) := by
  intro outpoints
  induction outpoints with
  | nil =>
    intro c
    exact stopsWith_ok _ _
  | cons outpoint rest ih =>
    intro c
    unfold spendInputs
    split
    · exact stopsWith_error nofun
    · exact (ih _).bind_pure

theorem addCoin_noOverflow (c : CCoinsViewCache) (outpoint : COutPoint) (coin : Coin)
    (possible_overwrite : Bool) : NoOverflow (c.addCoin outpoint coin possible_overwrite) := by
  refine stopsWith_require_bind nofun fun _ => ?_
  split
  · exact stopsWith_ok _ _
  · exact stopsWith_require_bind nofun fun _ => stopsWith_ok _ _

theorem addCoinsFrom_noOverflow (txid : UInt256) (fCoinbase : Bool) (nHeight : Nat) (check : Bool)
    (vout : List CTxOut) : ∀ (n : Nat) (c : CCoinsViewCache),
      NoOverflow (addCoinsFrom txid fCoinbase nHeight check n vout c) := by
  induction vout with
  | nil =>
    intro n c
    exact stopsWith_ok _ c
  | cons txout rest ih =>
    intro n c
    unfold addCoinsFrom
    apply stopsWith_bind (addCoin_noOverflow _ _ _ _)
    intro c' _
    exact ih (n + 1) c'

theorem checkBIP30_noOverflow (outpoints : List COutPoint) : ∀ c : CCoinsViewCache,
    NoOverflow (NodeEnv.checkBIP30 c outpoints) := by
  induction outpoints with
  | nil =>
    intro c
    exact stopsWith_ok _ c
  | cons outpoint rest ih =>
    intro c
    unfold NodeEnv.checkBIP30
    split
    · exact stopsWith_error nofun
    · exact ih _

namespace NodeEnv

variable (E : NodeEnv)

theorem updateCoins_noOverflow (tx : CTransaction) (c : CCoinsViewCache) (nHeight : Nat) :
    NoOverflow (E.updateCoins tx c nHeight) := by
  apply stopsWith_bind
  · exact stopsWith_ite (stopsWith_ok _ _) (spendInputs_noOverflow _ c)
  · intro _ _
    exact (addCoinsFrom_noOverflow _ _ _ _ _ _ _).bind_pure

/-! ### The coinbase rule -/

theorem getPopRewards_noOverflow (tip : CBlockIndex) : NoOverflow (E.getPopRewards tip) := by
  have hstep : ∀ result reward, NoOverflow (E.addReward tip result reward) := by
    intro result reward
    unfold addReward
    dsimp only
    split
    · exact stopsWith_require_bind nofun fun _ => stopsWith_ok _ _
    · exact stopsWith_ok _ _
  unfold getPopRewards
  split
  · exact stopsWith_ok _ _
  · refine stopsWith_require_bind nofun fun _ => ?_
    split
    · exact stopsWith_error nofun
    · exact stopsWith_foldlM (fun _ => True) (fun _ _ _ _ _ => trivial)
        (fun result reward _ => hstep result reward) trivial

/-- Every script is paid a nonnegative amount, and all of them at most `total`. -/
structure PaidWithin (payouts : Payouts) (total : Int) : Prop where
  nonneg : ∀ script amount, payouts.lookup script = some amount → 0 ≤ amount
  total : TotalLe id (fun script => payouts.lookup script) total

variable {payouts : Payouts} {tx : CTransaction} {s s' : ConnectState} {pindex : CBlockIndex}
  {block : CBlock}

theorem PaidWithin.insert {total value : Int} (h : PaidWithin payouts total)
    (script : CScript) (hvalue : 0 ≤ value) :
    PaidWithin (payouts.insert script ((payouts.lookup script).getD 0 + value))
      (total + value) := by
  have hold : 0 ≤ (payouts.lookup script).getD 0 := by
    cases hlookup : payouts.lookup script with
    | none => exact le_refl 0
    | some amount => exact h.nonneg script amount hlookup
  have hlookup : (fun k => (payouts.insert script
      ((payouts.lookup script).getD 0 + value)).lookup k) =
      Function.update (fun k => payouts.lookup k) script
        (some ((payouts.lookup script).getD 0 + value)) := by
    funext k
    by_cases hk : k = script
    · subst hk
      rw [AList.lookup_insert, Function.update_self]
    · rw [AList.lookup_insert_ne hk, Function.update_of_ne hk]
  constructor
  · intro k amount hk
    have hk := (congrFun hlookup k).symm.trans hk
    by_cases heq : k = script
    · subst heq
      rw [Function.update_self, Option.some.injEq] at hk
      omega
    · rw [Function.update_of_ne heq] at hk
      exact h.nonneg k amount hk
  · rw [hlookup]
    cases hheld : payouts.lookup script with
    | none => exact (h.total.put (by simpa using hvalue)).mono (by simp)
    | some amount =>
      -- the old amount leaves the total and comes back within the new one
      have hnew : 0 ≤ id (amount + value) := by
        rw [hheld] at hold
        exact Int.add_nonneg hold hvalue
      have hafter := (h.total.remove hheld).put (k := script) hnew
      rw [Function.update_idem] at hafter
      apply hafter.mono
      simp only [id_eq]
      omega

theorem addPayouts_noOverflow {vout : List CTxOut} : ∀ {payouts : Payouts} {total : Int},
    PaidWithin payouts total → (∀ txout ∈ vout, 0 ≤ txout.nValue) →
      total + (vout.map CTxOut.nValue).sum ≤ MAX_MONEY →
      ∃ payouts', vout.foldlM addPayout payouts = .ok payouts' ∧
        PaidWithin payouts' (total + (vout.map CTxOut.nValue).sum) := by
  induction vout with
  | nil =>
    intro payouts total h _ _
    exact ⟨payouts, rfl, by simpa using h⟩
  | cons txout rest ih =>
    intro payouts total h hvalues hle
    rw [map_cons, sum_cons, ← Int.add_assoc] at hle ⊢
    have hvalue := hvalues txout mem_cons_self
    have hrest : ∀ out ∈ rest, 0 ≤ out.nValue := (forall_mem_cons.mp hvalues).2
    have hsum : 0 ≤ (rest.map CTxOut.nValue).sum := by
      apply sum_nonneg
      simpa using hrest
    have hnew := h.insert txout.scriptPubKey hvalue
    have hpaid : 0 ≤ (payouts.lookup txout.scriptPubKey).getD 0 + txout.nValue ∧
        (payouts.lookup txout.scriptPubKey).getD 0 + txout.nValue ≤ total + txout.nValue := by
      refine ⟨hnew.nonneg _ _ (AList.lookup_insert _), ?_⟩
      have hone := hnew.total {txout.scriptPubKey}
      rw [Finset.sum_singleton, weightAt, AList.lookup_insert] at hone
      exact hone
    have hadd : addAmount ((payouts.lookup txout.scriptPubKey).getD 0) txout.nValue =
        .ok ((payouts.lookup txout.scriptPubKey).getD 0 + txout.nValue) := by
      rw [addAmount_eq_ok]
      simp only [MAX_MONEY, COIN] at hle
      omega
    have hnull : txout.isNull = false := by
      rw [CTxOut.isNull, beq_eq_false_iff_ne]
      omega
    have hstep : addPayout payouts txout = .ok (payouts.insert txout.scriptPubKey
        ((payouts.lookup txout.scriptPubKey).getD 0 + txout.nValue)) := by
      simp only [addPayout, hnull, Bool.false_eq_true, if_false, hadd, ok_bind]
      rfl
    obtain ⟨payouts', hfold, hwithin⟩ := ih hnew hrest hle
    refine ⟨payouts', ?_, hwithin⟩
    rw [foldlM_cons, hstep, ok_bind]
    exact hfold

variable {bound nFees : Int} {rewards : List (CScript × Int)} {view : CCoinsViewCache}
  {chain : List CBlock}

theorem PaidWithin.sum_rewards (h : PaidWithin payouts bound)
    (hnodup : (rewards.map Prod.fst).Nodup) (hpaid : ∀ r ∈ rewards, payouts.lookup r.1 = some r.2) :
    0 ≤ (rewards.map Prod.snd).sum ∧ (rewards.map Prod.snd).sum ≤ bound := by
  constructor
  · apply sum_nonneg
    intro amount hamount
    obtain ⟨r, hr, rfl⟩ := mem_map.mp hamount
    exact h.nonneg r.1 r.2 (hpaid r hr)
  · have hheld : WriteLog.Holds (fun script => payouts.lookup script) (rewards.map Prod.fst)
        (rewards.map Prod.snd) := by
      unfold WriteLog.Holds
      rw [forall₂_map_left_iff, forall₂_map_right_iff, forall₂_same]
      exact hpaid
    have hle := h.total.sum_le hnodup hheld
    rw [map_id] at hle
    exact hle

theorem checkRewards_noOverflow (tx : CTransaction)
    (hpaid : PaidWithin payouts bound) (hbound : bound ≤ MAX_MONEY)
    :
    ∀ done : List (CScript × Int), ((done ++ rewards).map Prod.fst).Nodup →
      (∀ r ∈ done, payouts.lookup r.1 = some r.2) →
      NoOverflow (rewards.foldlM (E.checkReward tx payouts) (done.map Prod.snd).sum) ∧
        ∀ total, rewards.foldlM (E.checkReward tx payouts) (done.map Prod.snd).sum = .ok total →
          moneyRange total = true := by
  induction rewards with
  | nil =>
    intro done hnodup hdone
    rw [append_nil] at hnodup
    refine ⟨stopsWith_ok _ _, ?_⟩
    intro total htotal
    cases htotal
    have hsum := hpaid.sum_rewards hnodup hdone
    exact moneyRange_iff.mpr ⟨hsum.1, hsum.2.trans hbound⟩
  | cons reward rest ih =>
    intro done hnodup hdone
    -- the rewards that were found paid, with this one if it was
    have hnodup' : ((done ++ [reward] ++ rest).map Prod.fst).Nodup := by
      rw [append_assoc]
      exact hnodup
    have hadd : payouts.lookup reward.1 = some reward.2 →
        (∀ r ∈ done ++ [reward], payouts.lookup r.1 = some r.2) ∧
        addAmount (done.map Prod.snd).sum reward.2 =
          .ok ((done ++ [reward]).map Prod.snd).sum := by
      intro hlookup
      have hall : ∀ r ∈ done ++ [reward], payouts.lookup r.1 = some r.2 := by
        intro r hr
        rcases mem_append.mp hr with hr | hr
        · exact hdone r hr
        · rw [mem_singleton.mp hr]
          exact hlookup
      have hdistinct := hnodup'.sublist ((sublist_append_left (done ++ [reward]) rest).map _)
      have hsum := hpaid.sum_rewards hdistinct hall
      refine ⟨hall, addAmount_eq_ok.mpr ⟨by simp, ?_⟩⟩
      rw [map_append, sum_append, map_singleton, sum_singleton] at hsum
      simp only [MAX_MONEY, COIN] at hbound
      omega
    rw [foldlM_cons]
    unfold checkReward
    split
    · exact ⟨stopsWith_error (by simp [NotOverflow]), fun total h => by cases h⟩
    · rename_i actualAmount hlookup
      by_cases hamount : actualAmount = reward.2
      · obtain ⟨hall, hsum⟩ := hadd (hamount ▸ hlookup)
        simp only [hamount, beq_self_eq_true, require_true, ok_bind, hsum]
        exact ih _ hnodup' hall
      · have hne : (actualAmount == reward.2) = false := beq_eq_false_iff_ne.mpr hamount
        simp only [hne, require_false, error_bind]
        exact ⟨stopsWith_error (by simp [NotOverflow]), fun total h => by cases h⟩

theorem checkCoinbaseWithRewards_noOverflow (hwell : TxWellFormed tx)
    (hfees : moneyRange nFees = true) (nHeight : Nat) (rewards : PoPRewards) :
    NoOverflow (E.checkCoinbaseWithRewards tx nFees nHeight rewards) := by
  refine stopsWith_require_bind (by simp [NotOverflow]) fun _ => ?_
  refine stopsWith_require_bind (by simp [NotOverflow]) fun _ => ?_
  have hempty : PaidWithin (∅ : Payouts) 0 := by
    constructor
    · intro script amount h
      rw [AList.lookup_empty] at h
      cases h
    · simp only [AList.lookup_empty]
      exact totalLe_empty
  have htail : ∀ txout ∈ tx.vout.tail, 0 ≤ txout.nValue := fun txout htxout =>
    (moneyRange_iff.mp (hwell.values txout (mem_of_mem_tail htxout))).1
  have htotal : 0 + (tx.vout.tail.map CTxOut.nValue).sum ≤ MAX_MONEY := by
    obtain ⟨out, rest, hvout⟩ := exists_cons_of_ne_nil hwell.vout_ne_nil
    have hrange := (moneyRange_iff.mp hwell.total).2
    have hfirst := (moneyRange_iff.mp (hwell.values out (hvout ▸ mem_cons_self))).1
    rw [hvout, map_cons, sum_cons] at hrange
    rw [hvout, tail_cons]
    omega
  obtain ⟨payouts, hpayouts, hwithin⟩ := addPayouts_noOverflow hempty htail htotal
  rw [hpayouts, ok_bind]
  obtain ⟨hrewards, hinRange⟩ := E.checkRewards_noOverflow tx hwithin htotal [] rewards.nodup
    fun _ h => absurd h not_mem_nil
  apply stopsWith_bind hrewards
  intro nTotalPopReward hsum
  have hpaid := moneyRange_iff.mp (hinRange nTotalPopReward hsum)
  have hsubsidy := E.getBlockSubsidy_bounds nHeight
  have hfees := moneyRange_iff.mp hfees
  simp only [MAX_MONEY, COIN] at hpaid hsubsidy hfees
  have hallowed : addAmount nTotalPopReward (E.getBlockSubsidy nHeight) =
      .ok (nTotalPopReward + E.getBlockSubsidy nHeight) :=
    addAmount_eq_ok.mpr ⟨rfl, by omega, by omega⟩
  have hallowed' : addAmount (nTotalPopReward + E.getBlockSubsidy nHeight) nFees =
      .ok (nTotalPopReward + E.getBlockSubsidy nHeight + nFees) :=
    addAmount_eq_ok.mpr ⟨rfl, by omega, by omega⟩
  dsimp only
  rw [getValueOut_of_wellFormed hwell, ok_bind, hallowed, ok_bind, hallowed', ok_bind]
  exact noOverflow_require _ (by simp [NotOverflow])

/-! ### The transactions of a block -/

theorem connectInputs_noOverflow (pindex : CBlockIndex)
    (hok : s.view.Ok) (hwell : TxWellFormed tx) (hvalues : ValuesInRange s.view.utxo)
    (hfees : moneyRange s.nFees = true) : NoOverflow (E.connectInputs pindex s tx) := by
  have hinputs : NoOverflow (asBlockFailure (checkTxInputs tx s.view pindex.nHeight)) := by
    unfold asBlockFailure
    split
    · exact stopsWith_error nofun
    · exact checkTxInputs_noOverflow hok hwell hvalues
  unfold connectInputs
  split
  · exact stopsWith_ok _ s
  · apply stopsWith_bind hinputs
    rintro ⟨fee, view⟩ hrun
    have hfee : moneyRange fee = true := by
      unfold asBlockFailure at hrun
      split at hrun
      · cases hrun
      · exact checkTxInputs_inRange hrun
    dsimp only
    rw [addAmount_of_moneyRange hfees hfee, ok_bind]
    refine stopsWith_require_bind nofun fun _ => ?_
    apply stopsWith_bind (sequenceLocks_noOverflow _ _ _ _)
    intro _ _
    exact stopsWith_require_bind nofun fun _ => stopsWith_ok _ _

theorem connectInputs_fees
    (h : E.connectInputs pindex s tx = .ok s') (hfees : moneyRange s.nFees = true) :
    moneyRange s'.nFees = true := by
  unfold connectInputs at h
  split at h
  · cases h
    exact hfees
  · simp only [bind_eq_ok, require_eq_ok, exists_const, pure_eq_ok_iff, Prod.exists] at h
    obtain ⟨_, _, -, nFees, -, hrange, _, -, -, rfl⟩ := h
    exact hrange

theorem connectTransaction_noOverflow (pindex : CBlockIndex)
    (hok : s.view.Ok) (hwell : TxWellFormed tx)
    (hvalues : ValuesInRange s.view.utxo) (hfees : moneyRange s.nFees = true) :
    NoOverflow (E.connectTransaction pindex s tx) := by
  apply stopsWith_bind (E.connectInputs_noOverflow pindex hok hwell hvalues hfees)
  intro s₁ _
  apply stopsWith_bind (getTransactionSigOpCost_noOverflow _ _ _)
  intro _ _
  refine stopsWith_require_bind nofun fun _ => ?_
  exact (E.updateCoins_noOverflow _ _ _).bind_pure

theorem connectTransaction_fees
    (h : E.connectTransaction pindex s tx = .ok s') (hfees : moneyRange s.nFees = true) :
    moneyRange s'.nFees = true := by
  simp only [connectTransaction, bind_eq_ok, require_eq_ok, exists_const, pure_eq_ok_iff,
    Prod.exists] at h
  obtain ⟨s₁, hinputs, cost, c₂, -, -, _, _, -, rfl⟩ := h
  have hqueue : ∀ s : ConnectState, (E.queueScriptChecks pindex s tx).nFees = s.nFees := by
    intro s
    unfold queueScriptChecks
    split <;> rfl
  rw [hqueue]
  change moneyRange s₁.nFees = true
  exact E.connectInputs_fees hinputs hfees

/-- The state before the transactions `vtx` of a block. -/
structure AmountsOk (nHeight : Nat) (vtx : List CTransaction) (s : ConnectState) : Prop where
  ok : s.view.Ok
  values : ValuesInRange s.view.utxo
  fees : moneyRange s.nFees = true
  well : ∀ tx ∈ vtx, TxWellFormed tx
  seen : ∀ tx ∈ vtx, ∀ o ∈ (E.created nHeight tx).map Prod.fst, SeenOnTop s.view o

theorem AmountsOk.step {rest : List CTransaction} (h : E.AmountsOk pindex.nHeight (tx :: rest) s)
    (hnew : tx.isCoinBase = true →
      ∀ o ∈ (E.created pindex.nHeight tx).map Prod.fst, s.view.utxo o = none)
    (hrun : E.connectTransaction pindex s tx = .ok s') : E.AmountsOk pindex.nHeight rest s' := by
  have hwell := h.well tx mem_cons_self
  obtain ⟨vprevout, fee, hconnected⟩ := E.connectTransaction_spec h.ok hwell
    (h.seen tx mem_cons_self) hnew hrun
  refine ⟨hconnected.keeps.ok, ?_, E.connectTransaction_fees hrun h.fees,
    (forall_mem_cons.mp h.well).2, ?_⟩
  · intro o coin hcoin
    rw [hconnected.utxo] at hcoin
    rcases E.mem_created_or hcoin with ⟨tx', htx', hcreated⟩ | ⟨hbefore, -⟩
    · rw [mem_singleton] at htx'
      subst htx'
      exact hwell.values _ (mem_coinsFrom hcreated).2.2.2.1
    · exact h.values o coin hbefore
  · intro t ht o ho
    exact (h.seen t (mem_cons_of_mem _ ht) o ho).of_extends hconnected.keeps.grows

theorem connectRest_noOverflow {vtx : List CTransaction} :
    ∀ {s : ConnectState}, E.AmountsOk pindex.nHeight vtx s →
      (∀ tx ∈ vtx, tx.isCoinBase = false) →
      NoOverflow (vtx.foldlM (E.connectTransaction pindex) s) ∧
        ∀ s', vtx.foldlM (E.connectTransaction pindex) s = .ok s' → moneyRange s'.nFees = true := by
  induction vtx with
  | nil =>
    intro s h _
    refine ⟨stopsWith_ok _ s, ?_⟩
    intro s' hrun
    cases hrun
    exact h.fees
  | cons tx rest ih =>
    intro s h hcoinbase
    have hnext : ∀ s₁, E.connectTransaction pindex s tx = .ok s₁ →
        E.AmountsOk pindex.nHeight rest s₁ := by
      intro s₁ hrun
      apply h.step E _ hrun
      intro htx
      rw [hcoinbase tx mem_cons_self] at htx
      cases htx
    have hothers : ∀ t ∈ rest, t.isCoinBase = false :=
      (forall_mem_cons.mp hcoinbase).2
    rw [foldlM_cons]
    constructor
    · apply stopsWith_bind (E.connectTransaction_noOverflow pindex h.ok
        (h.well tx mem_cons_self) h.values h.fees)
      intro s₁ hrun
      exact (ih (hnext s₁ hrun) hothers).1
    · intro s' hall
      obtain ⟨s₁, hrun, hrest⟩ := bind_eq_ok.mp hall
      exact (ih (hnext s₁ hrun) hothers).2 s' hrest

/-! ### The block -/

theorem checkPop_noOverflow (hwell : BlockWellFormed block)
    (pindex : CBlockIndex) (hfees : moneyRange nFees = true)
    (tip : Option CBlockIndex) : NoOverflow (E.checkPop block pindex nFees tip) := by
  obtain ⟨coinbase, rest, hvtx, -, -⟩ := hwell.coinbase
  have hcoinbase := hwell.txs coinbase (hvtx ▸ mem_cons_self)
  have hrule : NoOverflow (E.checkCoinbaseTxWithPopRewards coinbase nFees pindex) := by
    unfold checkCoinbaseTxWithPopRewards
    split
    · exact stopsWith_error nofun
    · apply stopsWith_bind (E.getPopRewards_noOverflow _)
      intro rewards _
      exact E.checkCoinbaseWithRewards_noOverflow hcoinbase hfees _ rewards
  unfold checkPop
  split
  · simp only [hvtx]
    apply stopsWith_bind hrule
    intro _ _
    exact noOverflow_require _ nofun
  · exact stopsWith_ok _ _

theorem connectTransactions_noOverflow {pprev : CBlockIndex}
    (tip : Option CBlockIndex) (hok : view.Ok)
    (hvalues : ValuesInRange view.utxo) (hwell : BlockWellFormed block)
    (hbip30 : E.enforceBIP30 pindex pprev = true) :
    NoOverflow (E.connectTransactions block pindex pprev view tip false) := by
  obtain ⟨coinbase, rest, hvtx, -, hothers⟩ := hwell.coinbase
  unfold connectTransactions
  rw [hbip30, if_pos rfl]
  apply stopsWith_bind (checkBIP30_noOverflow _ view)
  intro c hbip
  obtain ⟨hread, hnew⟩ := checkBIP30_spec hok hbip
  rw [← hread.utxo] at hnew hvalues
  have hfresh : ∀ tx ∈ block.vtx, ∀ o ∈ (E.created pindex.nHeight tx).map Prod.fst,
      c.utxo o = none := by
    intro tx htx o ho
    exact hnew o (mem_flatMap.mpr ⟨tx, htx, E.mem_createdBy ho⟩)
  have hstart : E.AmountsOk pindex.nHeight (coinbase :: rest) { view := c } := by
    refine ⟨hread.ok, hvalues, rfl, hvtx ▸ hwell.txs, ?_⟩
    intro tx htx o ho hpresent
    exact absurd (hfresh tx (hvtx ▸ htx) o ho) hpresent
  have hnext : ∀ s₁, E.connectTransaction pindex { view := c } coinbase = .ok s₁ →
      E.AmountsOk pindex.nHeight rest s₁ := fun s₁ hrun =>
    hstart.step E (fun _ => hfresh coinbase (hvtx ▸ mem_cons_self)) hrun
  apply stopsWith_bind
  · rw [hvtx, foldlM_cons]
    apply stopsWith_bind (E.connectTransaction_noOverflow pindex hstart.ok
      (hstart.well coinbase mem_cons_self) hstart.values hstart.fees)
    intro s₁ hrun
    exact (E.connectRest_noOverflow (hnext s₁ hrun) hothers).1
  · intro s hrun
    rw [hvtx, foldlM_cons] at hrun
    obtain ⟨s₁, hfirst, hrest⟩ := bind_eq_ok.mp hrun
    have hfees := (E.connectRest_noOverflow (hnext s₁ hfirst) hothers).2 s hrest
    apply stopsWith_bind (E.checkPop_noOverflow hwell pindex hfees tip)
    intro _ _
    exact stopsWith_require_bind nofun fun _ => stopsWith_ok _ _

theorem LedgerChain.valuesInRange (h : E.LedgerChain chain) :
    ValuesInRange (E.utxoOf chain) := by
  induction h with
  | nil =>
    intro o coin hcoin
    cases hcoin
  | cons _ hon ih =>
    intro o coin hcoin
    rcases E.mem_created_or hcoin with ⟨tx, htx, hcreated⟩ | ⟨hbefore, -⟩
    · exact (hon.well.txs tx htx).values _ (mem_coinsFrom hcreated).2.2.2.1
    · exact ih o coin hbefore

/-- **No addition overflows** when a checked block is connected to a chain. -/
theorem connectBlock_noOverflow (hledger : E.LedgerChain chain) (hview : E.StandsFor view chain)
    (hhashes : E.ChainHashes (block :: chain)) (hcheck : E.checkBlockRules block true = .ok ()) :
    NoOverflow (E.connectBlock block (E.blockIndex block chain) view (E.tipIndex chain) false) := by
  have hwell := E.checkBlockRules_eq_ok hcheck
  have hvalues : ValuesInRange view.utxo := hview.utxo ▸ hledger.valuesInRange E
  have hrecheck : E.recheckBlock block (E.blockIndex block chain).pprev false = .ok () := by
    have hchecked : ∃ checked, E.checkBlock block true = .ok checked := by
      unfold checkBlock
      split
      · exact ⟨_, rfl⟩
      · rw [hcheck]
        exact ⟨_, rfl⟩
    obtain ⟨checked, hchecked⟩ := hchecked
    simp only [recheckBlock, Bool.not_false, hchecked]
    rfl
  obtain ⟨-, hok, hutxo, -⟩ := getBestBlock_spec hview.ok
  rw [← hutxo] at hvalues
  unfold connectBlock
  refine stopsWith_require_bind (by simp [NotOverflow]) fun _ => ?_
  rw [hrecheck, ok_bind]
  refine stopsWith_require_bind (by simp [NotOverflow]) fun _ => ?_
  split
  · -- genesis only adds its outputs
    unfold connectGenesis
    split
    · exact (E.updateCoins_noOverflow _ _ _).bind_pure
    · exact stopsWith_error (by simp [NotOverflow])
  · cases chain with
    | nil => exact stopsWith_error (by simp [NotOverflow])
    | cons parent rest =>
      exact E.connectTransactions_noOverflow _ hok hvalues hwell (E.enforceBIP30_of_hashes hhashes)

end NodeEnv

end VBitcoin
