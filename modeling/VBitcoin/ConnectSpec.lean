import VBitcoin.CheckBlockFacts
import VBitcoin.CoinsStack
import VBitcoin.ConnectBlock
import VBitcoin.Ledger

/-!
**`ConnectBlock` refines the ledger** — a block that is connected changes the coin set by its
log, and its undo data are the coins it spends.  `AddCoin` may be told that no coin is there,
because BIP30 asked for every output at the start of the block: a coin that is there now was
created meanwhile and is found in the topmost cache.
-/

namespace VBitcoin

open WriteLog List CTransaction

/-! ### Reading the inputs -/

/-- The coins at some outpoints, as `AccessCoin` gives them. -/
def coinsAt (coins : Utxo) (outpoints : List COutPoint) : List Coin :=
  outpoints.map fun outpoint => (coins outpoint).getD Coin.empty

theorem haveAll_spec : ∀ (outpoints : List COutPoint) {c : CCoinsViewCache}, c.Ok →
    ((c.haveAll outpoints).1 = true → ∀ o ∈ outpoints, c.utxo o ≠ none) ∧
      ReadSpec c (c.haveAll outpoints).2
  | [], c, hok => ⟨fun _ o h => absurd h not_mem_nil, ReadSpec.refl hok⟩
  | outpoint :: rest, c, hok => by
      obtain ⟨hhave, hread⟩ := haveCoin_spec hok outpoint
      rw [CCoinsViewCache.haveAll]
      generalize c.haveCoin outpoint = result at hhave hread
      obtain ⟨found, c₁⟩ := result
      cases found with
      | false => exact ⟨fun h => (by cases h), hread⟩
      | true =>
        obtain ⟨hrest, hread'⟩ := haveAll_spec rest hread.ok
        refine ⟨fun h o hmem => ?_, hread.trans hread'⟩
        rcases mem_cons.mp hmem with rfl | hmem
        · exact Option.isSome_iff_ne_none.mp hhave.symm
        · rw [← hread.utxo]
          exact hrest h o hmem

theorem accessAll_spec : ∀ (outpoints : List COutPoint) {c : CCoinsViewCache}, c.Ok →
    (c.accessAll outpoints).1 = coinsAt c.utxo outpoints ∧ ReadSpec c (c.accessAll outpoints).2
  | [], c, hok => ⟨rfl, ReadSpec.refl hok⟩
  | outpoint :: rest, c, hok => by
      obtain ⟨hcoin, hread⟩ := accessCoin_spec hok outpoint
      obtain ⟨hcoins, hread'⟩ := accessAll_spec rest hread.ok
      refine ⟨?_, hread.trans hread'⟩
      rw [hread.utxo] at hcoins
      simp only [CCoinsViewCache.accessAll, coinsAt, map_cons, hcoin, hcoins]

theorem holds_coinsAt {coins : Utxo} : ∀ {outpoints : List COutPoint},
    (∀ o ∈ outpoints, coins o ≠ none) → Holds coins outpoints (coinsAt coins outpoints)
  | [], _ => List.Forall₂.nil
  | outpoint :: rest, h => by
      refine List.Forall₂.cons ?_ (holds_coinsAt (forall_mem_cons.mp h).2)
      obtain ⟨coin, hcoin⟩ := Option.ne_none_iff_exists'.mp (h outpoint mem_cons_self)
      simp only [hcoin, Option.getD_some]

/-! ### Amounts -/

variable {coin : Coin} {c c' : CCoinsViewCache} {outpoint : COutPoint}

variable {nSpendHeight : Nat} {tx : CTransaction}

theorem addValueIn_eq_ok {nValueIn total : Int}
    (h : addValueIn nSpendHeight nValueIn coin = .ok total) :
    moneyRange coin.out.nValue = true ∧ total = nValueIn + coin.out.nValue := by
  simp only [addValueIn, bind_eq_ok, require_eq_ok, exists_const, pure_eq_ok_iff,
    Bool.and_eq_true] at h
  obtain ⟨-, -, sum, hsum, ⟨hcoin, -⟩, rfl⟩ := h
  exact ⟨hcoin, (addAmount_eq_ok.mp hsum).1⟩

theorem addValuesIn_eq_ok {nSpendHeight : Nat} : ∀ {coins : List Coin} {start total : Int},
    coins.foldlM (addValueIn nSpendHeight) start = .ok total →
      (∀ coin ∈ coins, moneyRange coin.out.nValue = true) ∧
        total = start + (coins.map fun coin => coin.out.nValue).sum
  | [], start, total, h => by
      simp only [foldlM_nil, pure_eq_ok_iff] at h
      subst h
      exact ⟨fun _ hmem => absurd hmem not_mem_nil, by simp⟩
  | coin :: rest, start, total, h => by
      rw [foldlM_cons, bind_eq_ok] at h
      obtain ⟨mid, hmid, h⟩ := h
      obtain ⟨hcoin, hsum⟩ := addValueIn_eq_ok hmid
      obtain ⟨hcoins, htotal⟩ := addValuesIn_eq_ok h
      refine ⟨fun c hmem => ?_, ?_⟩
      · rcases mem_cons.mp hmem with rfl | hmem
        · exact hcoin
        · exact hcoins c hmem
      · rw [htotal, hsum, map_cons, sum_cons]
        omega

theorem addValuesOut_eq_ok : ∀ {vout : List CTxOut} {start total : Int},
    vout.foldlM CTransaction.addValueOut start = .ok total →
      total = start + (vout.map CTxOut.nValue).sum
  | [], start, total, h => by
      simp only [foldlM_nil, pure_eq_ok_iff] at h
      simp [h]
  | txout :: rest, start, total, h => by
      simp only [foldlM_cons, CTransaction.addValueOut, bind_eq_ok, require_eq_ok,
        exists_const, pure_eq_ok_iff] at h
      obtain ⟨mid, ⟨sum, hsum, -, rfl⟩, h⟩ := h
      rw [addValuesOut_eq_ok h, (addAmount_eq_ok.mp hsum).1, map_cons, sum_cons]
      omega

theorem getValueOut_eq_ok {value : Int} (h : tx.getValueOut = .ok value) :
    value = tx.valueOut := by
  rw [addValuesOut_eq_ok h, Int.zero_add]
  rfl

theorem checkTxInputs_spec {fee : Int} (hok : c.Ok) (hcoinbase : tx.isCoinBase = false)
    (h : checkTxInputs tx c nSpendHeight = .ok (fee, c')) :
    ReadSpec c c' ∧ (∀ o ∈ tx.spent, c.utxo o ≠ none) ∧
      (∀ coin ∈ coinsAt c.utxo tx.spent, moneyRange coin.out.nValue = true) ∧
      ((coinsAt c.utxo tx.spent).map fun coin => coin.out.nValue).sum = tx.valueOut + fee := by
  rw [spent_of_not_isCoinBase hcoinbase]
  obtain ⟨hhave, hread⟩ := haveAll_spec (tx.vin.map CTxIn.prevout) hok
  obtain ⟨hcoins, hread'⟩ := accessAll_spec (tx.vin.map CTxIn.prevout) hread.ok
  simp only [checkTxInputs, CCoinsViewCache.haveInputs, hcoinbase, Bool.false_eq_true, if_false,
    bind_eq_ok, require_eq_ok, exists_const, pure_eq_ok_iff, Prod.mk.injEq,
    decide_eq_true_eq] at h
  obtain ⟨havailable, nValueIn, hin, value_out, hout, -, -, hfee, rfl⟩ := h
  rw [hcoins, hread.utxo] at hin
  obtain ⟨hrange, hsum⟩ := addValuesIn_eq_ok hin
  refine ⟨hread.trans hread', hhave havailable, hrange, ?_⟩
  rw [getValueOut_eq_ok hout] at hfee
  omega

/-! ### Spending and adding coins -/

theorem spendInputs_spec : ∀ {outpoints : List COutPoint} {c : CCoinsViewCache}, c.Ok →
    outpoints.Nodup → (∀ o ∈ outpoints, c.utxo o ≠ none) →
      ∃ c', spendInputs c outpoints = .ok (coinsAt c.utxo outpoints, c') ∧ Keeps c c' ∧
        c'.utxo = replay c.utxo (removes outpoints)
  | [], c, hok, _, _ => ⟨c, rfl, Keeps.refl hok, rfl⟩
  | outpoint :: rest, c, hok, hnodup, hpresent => by
      obtain ⟨-, hmoved, hkeeps, hutxo⟩ := spendCoin_spec hok outpoint
      have hhere := hpresent outpoint mem_cons_self
      obtain ⟨coin, hcoin⟩ := Option.ne_none_iff_exists'.mp hhere
      have hmoved := (hmoved hhere).trans hcoin
      generalize hspend : c.spendCoin outpoint = result at hmoved hkeeps hutxo
      obtain ⟨moved, c₁⟩ := result
      subst hmoved
      obtain ⟨houtpoint, hnodup⟩ := nodup_cons.mp hnodup
      -- the other inputs are different outpoints, so this spend does not touch them
      have hothers : ∀ o ∈ rest, c₁.utxo o = c.utxo o := by
        intro o ho
        rw [hutxo, Utxo.spend, Function.update_of_ne]
        rintro rfl
        exact houtpoint ho
      obtain ⟨c', hrun, hkeeps', hutxo'⟩ := spendInputs_spec hkeeps.ok hnodup fun o ho => by
        rw [hothers o ho]
        exact hpresent o (mem_cons_of_mem _ ho)
      have hcoins : coinsAt c₁.utxo rest = coinsAt c.utxo rest :=
        map_congr_left fun o ho => by rw [hothers o ho]
      refine ⟨c', ?_, hkeeps.trans hkeeps', ?_⟩
      · simp only [spendInputs, hspend, hrun, hcoins, ok_bind]
        simp [coinsAt, hcoin, pure, Except.pure]
      · rw [hutxo', hutxo]
        rfl

theorem addCoin_free (h : c.addCoin outpoint coin false = .ok c')
    (hspendable : isUnspendable coin.out.scriptPubKey = false) (hseen : SeenOnTop c outpoint) :
    c.utxo outpoint = none := by
  by_contra hpresent
  obtain ⟨entry, hentry⟩ := Option.isSome_iff_exists.mp (AList.lookup_isSome.mpr (hseen hpresent))
  simp only [CCoinsViewCache.addCoin, hspendable, hentry, bind_eq_ok, require_eq_ok, exists_const,
    Bool.false_eq_true, if_false, Bool.false_or, Option.all_some] at h
  rw [c.utxo_apply, cellOf_of_lookup hentry] at hpresent
  exact hpresent (Coin.unspent_eq_none.mpr h.2.1)

theorem addCoin_eq_ok {possible_overwrite : Bool} (hok : c.Ok)
    (hpromise : possible_overwrite = false →
      isUnspendable coin.out.scriptPubKey = false → c.utxo outpoint = none)
    (h : c.addCoin outpoint coin possible_overwrite = .ok c') :
    Keeps c c' ∧ c'.utxo = c.utxo.add outpoint coin := by
  obtain ⟨c₁, hrun, hkeeps, hutxo⟩ := addCoin_spec hok (addCoin_unspent h) hpromise
  rw [hrun, Except.ok.injEq] at h
  subst h
  exact ⟨hkeeps, hutxo⟩

/-- Without `check` the coin of a transaction that is no coinbase must be new. -/
theorem addOutput_spec {c₁ : CCoinsViewCache} {fCoinbase check overwrite : Bool} (hok : c.Ok)
    (hseen : check = false → fCoinbase = false →
      isUnspendable coin.out.scriptPubKey = false → SeenOnTop c outpoint)
    (hask : (if check then c.haveCoin outpoint else (fCoinbase, c)) = (overwrite, c₁))
    (h : c₁.addCoin outpoint coin overwrite = .ok c') :
    Keeps c c' ∧ c'.utxo = c.utxo.add outpoint coin ∧
      (check = false → fCoinbase = false →
        isUnspendable coin.out.scriptPubKey = false → c.utxo outpoint = none) := by
  cases check with
  | true =>
    obtain ⟨hhave, hread⟩ := haveCoin_spec hok outpoint
    rw [if_pos rfl] at hask
    rw [hask] at hhave hread
    obtain ⟨hkeeps, hutxo⟩ := addCoin_eq_ok hread.ok
      (fun hoverwrite _ => hread.utxo ▸ absent_of_not_found hhave hoverwrite) h
    rw [hread.utxo] at hutxo
    exact ⟨hread.toKeeps.trans hkeeps, hutxo, fun hcheck => (by cases hcheck)⟩
  | false =>
    simp only [Bool.false_eq_true, if_false, Prod.mk.injEq] at hask
    obtain ⟨rfl, rfl⟩ := hask
    have hfree : fCoinbase = false → isUnspendable coin.out.scriptPubKey = false →
        c.utxo outpoint = none := by
      intro hcoinbase hspendable
      rw [hcoinbase] at h
      exact addCoin_free h hspendable (hseen rfl hcoinbase hspendable)
    obtain ⟨hkeeps, hutxo⟩ := addCoin_eq_ok hok hfree h
    exact ⟨hkeeps, hutxo, fun _ => hfree⟩

/-- If what it is told about hidden coins is true. -/
theorem addCoinsFrom_spec {txid : UInt256} {fCoinbase check : Bool} {nHeight : Nat} :
    ∀ {vout : List CTxOut} {n : Nat} {c c' : CCoinsViewCache}, c.Ok →
      (check = false → fCoinbase = false →
        ∀ o ∈ (coinsFrom txid fCoinbase nHeight n vout).map Prod.fst, SeenOnTop c o) →
      addCoinsFrom txid fCoinbase nHeight check n vout c = .ok c' →
        Keeps c c' ∧ c'.utxo = replay c.utxo (puts (coinsFrom txid fCoinbase nHeight n vout)) ∧
          (check = false → fCoinbase = false →
            ∀ o ∈ (coinsFrom txid fCoinbase nHeight n vout).map Prod.fst, c.utxo o = none)
  | [], n, c, c', hok, _, h => by
      simp only [addCoinsFrom, pure_eq_ok_iff] at h
      subst h
      exact ⟨Keeps.refl hok, rfl, fun _ _ o ho => absurd ho not_mem_nil⟩
  | txout :: rest, n, c, c', hok, hseen, h => by
      rw [addCoinsFrom] at h
      generalize hask : (if check then c.haveCoin ⟨txid, n⟩ else (fCoinbase, c)) = asked at h
      obtain ⟨overwrite, c₁⟩ := asked
      obtain ⟨c₂, hadd, hrest⟩ := bind_eq_ok.mp h
      cases hscript : isUnspendable txout.scriptPubKey with
      | true =>
        rw [coinsFrom_cons_of_unspendable hscript] at hseen ⊢
        have hkept : isUnspendable txout.scriptPubKey = false → False := by simp [hscript]
        obtain ⟨hkeeps, hutxo, -⟩ := addOutput_spec hok (fun _ _ h => (hkept h).elim) hask hadd
        rw [Utxo.add, if_pos hscript] at hutxo
        obtain ⟨hkeeps', hutxo', hfree⟩ := addCoinsFrom_spec hkeeps.ok
          (fun hcheck hcoinbase o ho => (hseen hcheck hcoinbase o ho).of_extends hkeeps.grows) hrest
        rw [hutxo] at hutxo' hfree
        exact ⟨hkeeps.trans hkeeps', hutxo', hfree⟩
      | false =>
        rw [coinsFrom_cons_of_spendable hscript] at hseen ⊢
        obtain ⟨hkeeps, hutxo, hfirst⟩ := addOutput_spec hok
          (fun hcheck hcoinbase _ => hseen hcheck hcoinbase _ mem_cons_self) hask hadd
        have hutxo : c₂.utxo =
            Function.update c.utxo ⟨txid, n⟩ (some ⟨txout, nHeight, fCoinbase⟩) := by
          rw [hutxo, Utxo.add, hscript]
          rfl
        obtain ⟨hkeeps', hutxo', hfree⟩ := addCoinsFrom_spec hkeeps.ok
          (fun hcheck hcoinbase o ho =>
            (hseen hcheck hcoinbase o (mem_cons_of_mem _ ho)).of_extends hkeeps.grows) hrest
        refine ⟨hkeeps.trans hkeeps', by rw [hutxo', hutxo]; rfl, ?_⟩
        intro hcheck hcoinbase o ho
        rcases mem_cons.mp ho with rfl | ho
        · exact hfirst hcheck hcoinbase hscript
        · have hfree := hfree hcheck hcoinbase o ho
          rwa [hutxo, Function.update_of_ne] at hfree
          rintro rfl
          exact notMem_coinsFrom_succ txid fCoinbase nHeight n rest ho

namespace NodeEnv

variable (E : NodeEnv)

variable {tx : CTransaction} {c view view' : CCoinsViewCache} {nHeight : Nat} {pindex : CBlockIndex}
  {s s' : ConnectState} {block : CBlock} {vtxundo : CBlockUndo}

variable {c' : CCoinsViewCache} {vtx vtx' : List CTransaction} {vtxundo vtxundo' : List CTxUndo}
  {fees fees' : Int} {tip : Option CBlockIndex}

/-- **`UpdateCoins`** applies the log of a transaction whose inputs are there. -/
theorem updateCoins_spec {txundo : CTxUndo} (hok : c.Ok) (hnodup : tx.spent.Nodup)
    (hpresent : ∀ o ∈ tx.spent, c.utxo o ≠ none)
    (hseen : tx.isCoinBase = false → ∀ o ∈ (E.created nHeight tx).map Prod.fst, SeenOnTop c o)
    (h : E.updateCoins tx c nHeight = .ok (txundo, c')) :
    Keeps c c' ∧ txundo = coinsAt c.utxo tx.spent ∧ c'.utxo = replay c.utxo (E.txLog nHeight tx) ∧
      (tx.isCoinBase = false → ∀ o ∈ (E.created nHeight tx).map Prod.fst,
        replay c.utxo (removes tx.spent) o = none) := by
  obtain ⟨c₁, hspend, hkeeps, hutxo⟩ := spendInputs_spec hok hnodup hpresent
  have hfirst : spendTransaction tx c = .ok (coinsAt c.utxo tx.spent, c₁) := by
    unfold spendTransaction
    cases hcoinbase : tx.isCoinBase with
    | true =>
      rw [spent_of_isCoinBase hcoinbase] at hspend ⊢
      exact hspend
    | false =>
      rw [spent_of_not_isCoinBase hcoinbase] at hspend ⊢
      exact hspend
  simp only [updateCoins, hfirst, ok_bind, bind_eq_ok, pure_eq_ok_iff, Prod.mk.injEq] at h
  obtain ⟨c₂, hadd, hundo, rfl⟩ := h
  obtain ⟨hkeeps', hutxo', hfree⟩ := addCoinsFrom_spec hkeeps.ok
    (fun _ hcoinbase o ho => (hseen hcoinbase o ho).of_extends hkeeps.grows) hadd
  rw [hutxo] at hutxo' hfree
  refine ⟨hkeeps.trans hkeeps', hundo.symm, ?_, hfree rfl⟩
  rw [hutxo', txLog, replay_append]
  rfl

/-! ### One transaction -/

structure InputsChecked (coins : Utxo) (tx : CTransaction) (fee : Int) : Prop where
  present : ∀ o ∈ tx.spent, coins o ≠ none
  inRange : ∀ coin ∈ coinsAt coins tx.spent, moneyRange coin.out.nValue = true
  balance : tx.isCoinBase = false →
    ((coinsAt coins tx.spent).map fun coin => coin.out.nValue).sum = tx.valueOut + fee
  coinbase : tx.isCoinBase = true → fee = 0

theorem connectInputs_spec (hok : s.view.Ok) (h : E.connectInputs pindex s tx = .ok s') :
    ∃ fee, InputsChecked s.view.utxo tx fee ∧ ReadSpec s.view s'.view ∧
      s'.nFees = s.nFees + fee ∧ s'.txundos = s.txundos := by
  unfold connectInputs at h
  cases hcoinbase : tx.isCoinBase with
  | true =>
    rw [hcoinbase, if_pos rfl, pure_eq_ok_iff] at h
    subst h
    have hnone := spent_of_isCoinBase hcoinbase
    refine ⟨0, ⟨?_, ?_, ?_, fun _ => rfl⟩, ReadSpec.refl hok, by omega, rfl⟩
    · simp [hnone]
    · simp [hnone, coinsAt]
    · simp [hcoinbase]
  | false =>
    simp only [hcoinbase, Bool.false_eq_true, if_false, bind_eq_ok, require_eq_ok, exists_const,
      pure_eq_ok_iff, Prod.exists] at h
    obtain ⟨fee, c₁, hinputs, nFees, hfees, -, final, -, -, rfl⟩ := h
    have hinputs : checkTxInputs tx s.view pindex.nHeight = .ok (fee, c₁) := by
      unfold asBlockFailure at hinputs
      split at hinputs
      · cases hinputs
      · exact hinputs
    obtain ⟨hread, hpresent, hrange, hbalance⟩ := checkTxInputs_spec hok hcoinbase hinputs
    obtain ⟨-, hread'⟩ := accessAll_spec (tx.vin.map CTxIn.prevout) hread.ok
    exact ⟨fee, ⟨hpresent, hrange, fun _ => hbalance, by simp [hcoinbase]⟩, hread.trans hread',
      (addAmount_eq_ok.mp hfees).1, rfl⟩

theorem getTransactionSigOpCost_spec {flags : ScriptFlags} {cost : Nat} (hok : c.Ok)
    (h : getTransactionSigOpCost tx c flags = .ok (cost, c')) : ReadSpec c c' := by
  cases hcoinbase : tx.isCoinBase with
  | true =>
    simp only [getTransactionSigOpCost, hcoinbase, if_true, pure_eq_ok_iff, Prod.mk.injEq] at h
    rw [← h.2]
    exact ReadSpec.refl hok
  | false =>
    simp only [getTransactionSigOpCost, hcoinbase, Bool.false_eq_true, if_false, bind_eq_ok,
      require_eq_ok, exists_const, pure_eq_ok_iff, Prod.mk.injEq] at h
    rw [← h.2.2]
    exact (accessAll_spec (tx.vin.map CTxIn.prevout) hok).2

theorem queueScriptChecks_spec (pindex : CBlockIndex) (hok : s.view.Ok) (tx : CTransaction) :
    ReadSpec s.view (E.queueScriptChecks pindex s tx).view ∧
      (E.queueScriptChecks pindex s tx).nFees = s.nFees ∧
      (E.queueScriptChecks pindex s tx).txundos = s.txundos := by
  unfold queueScriptChecks
  split
  · exact ⟨ReadSpec.refl hok, rfl, rfl⟩
  · exact ⟨(accessAll_spec (tx.vin.map CTxIn.prevout) hok).2, rfl, rfl⟩

/-- The coin set by their log, and the undo data of their coins. -/
structure Connected (nHeight : Nat) (s : ConnectState) (vtx : List CTransaction)
    (vtxundo : List CTxUndo) (fees : Int) (s' : ConnectState) : Prop where
  txs : E.TxsConnect nHeight s.view.utxo vtx vtxundo fees
  keeps : Keeps s.view s'.view
  utxo : s'.view.utxo = replay s.view.utxo (vtx.flatMap (E.txLog nHeight))
  nFees : s'.nFees = s.nFees + fees
  txundos : s'.txundos = s.txundos ++ vtxundo

/-- **One turn.** The outputs of a coinbase must be new; others would be seen. -/
theorem connectTransaction_spec (hok : s.view.Ok) (hwell : TxWellFormed tx)
    (hseen : ∀ o ∈ (E.created pindex.nHeight tx).map Prod.fst, SeenOnTop s.view o)
    (hnew : tx.isCoinBase = true →
      ∀ o ∈ (E.created pindex.nHeight tx).map Prod.fst, s.view.utxo o = none)
    (h : E.connectTransaction pindex s tx = .ok s') :
    ∃ vprevout fee, E.Connected pindex.nHeight s [tx] [vprevout] fee s' := by
  simp only [connectTransaction, bind_eq_ok, require_eq_ok, exists_const, pure_eq_ok_iff,
    Prod.exists] at h
  obtain ⟨s₁, hinputs, cost, c₂, hcost, -, txundo, c₄, hupdate, rfl⟩ := h
  obtain ⟨fee, hchecked, hread₁, hfees, hundos⟩ := E.connectInputs_spec hok hinputs
  have hread₂ := getTransactionSigOpCost_spec hread₁.ok hcost
  obtain ⟨hread₃, hfees₃, hundos₃⟩ := E.queueScriptChecks_spec pindex
    (s := { s₁ with view := c₂, nSigOpsCost := s₁.nSigOpsCost + cost }) hread₂.ok tx
  generalize E.queueScriptChecks pindex
    { s₁ with view := c₂, nSigOpsCost := s₁.nSigOpsCost + cost } tx = s₃ at *
  -- nothing so far changed the coin set
  have hread := (hread₁.trans hread₂).trans hread₃
  have hnodup : tx.spent.Nodup := hwell.nodup.sublist tx.spent_sublist
  obtain ⟨hkeeps, rfl, hutxo, hfree⟩ := E.updateCoins_spec hread.ok hnodup
    (by rw [hread.utxo]; exact hchecked.present)
    (fun _ o ho => (hseen o ho).of_extends hread.grows) hupdate
  rw [hread.utxo] at hutxo hfree
  refine ⟨coinsAt s.view.utxo tx.spent, fee + 0, ?_⟩
  have htx : E.TxConnects pindex.nHeight s.view.utxo tx (coinsAt s.view.utxo tx.spent) fee := by
    refine ⟨holds_coinsAt hchecked.present, ?_, hchecked.inRange, hchecked.balance,
      hchecked.coinbase⟩
    intro o ho
    cases hcoinbase : tx.isCoinBase with
    | true =>
      rw [spent_of_isCoinBase hcoinbase]
      exact hnew hcoinbase o ho
    | false => exact hfree hcoinbase o ho
  refine ⟨.cons htx (.nil _), hread.toKeeps.trans hkeeps, ?_, ?_, ?_⟩
  · rw [hutxo, flatMap_cons, flatMap_nil, append_nil]
  · change s₃.nFees = _
    rw [hfees₃]
    change s₁.nFees = _
    rw [hfees]
    omega
  · change s₃.txundos ++ _ = _
    rw [hundos₃]
    change s₁.txundos ++ _ = _
    rw [hundos, hread.utxo]

/-! ### All transactions -/

theorem TxsConnect.append {coins : Utxo} (h : E.TxsConnect nHeight coins vtx vtxundo fees)
    (h' : E.TxsConnect nHeight (replay coins (vtx.flatMap (E.txLog nHeight))) vtx' vtxundo' fees') :
    E.TxsConnect nHeight coins (vtx ++ vtx') (vtxundo ++ vtxundo') (fees + fees') := by
  induction h with
  | nil coins =>
    rw [Int.zero_add]
    exact h'
  | cons htx _ ih =>
    rw [flatMap_cons, replay_append] at h'
    rw [Int.add_assoc]
    exact .cons htx (ih h')

theorem Connected.trans {s₁ s₂ : ConnectState} (h : E.Connected nHeight s vtx vtxundo fees s₁)
    (h' : E.Connected nHeight s₁ vtx' vtxundo' fees' s₂) :
    E.Connected nHeight s (vtx ++ vtx') (vtxundo ++ vtxundo') (fees + fees') s₂ := by
  refine ⟨h.txs.append E (h.utxo ▸ h'.txs), h.keeps.trans h'.keeps, ?_, ?_, ?_⟩
  · rw [h'.utxo, h.utxo, ← replay_append, flatMap_append]
  · rw [h'.nFees, h.nFees, Int.add_assoc]
  · rw [h'.txundos, h.txundos, append_assoc]

theorem connectRest_spec {pindex : CBlockIndex} : ∀ {vtx : List CTransaction}
    {s s' : ConnectState}, s.view.Ok → (∀ tx ∈ vtx, TxWellFormed tx) →
      (∀ tx ∈ vtx, tx.isCoinBase = false) →
      (∀ tx ∈ vtx, ∀ o ∈ (E.created pindex.nHeight tx).map Prod.fst, SeenOnTop s.view o) →
      vtx.foldlM (E.connectTransaction pindex) s = .ok s' →
        ∃ vtxundo fees, E.Connected pindex.nHeight s vtx vtxundo fees s'
  | [], s, s', hok, _, _, _, h => by
      simp only [foldlM_nil, pure_eq_ok_iff] at h
      subst h
      exact ⟨[], 0, .nil _, Keeps.refl hok, rfl, by omega, by simp⟩
  | tx :: rest, s, s', hok, hwell, hcoinbase, hseen, h => by
      rw [foldlM_cons, bind_eq_ok] at h
      obtain ⟨s₁, hfirst, hrest⟩ := h
      obtain ⟨vprevout, fee, hconnected⟩ := E.connectTransaction_spec hok
        (hwell tx mem_cons_self) (hseen tx mem_cons_self)
        (fun h => by rw [hcoinbase tx mem_cons_self] at h; cases h) hfirst
      obtain ⟨vtxundo, fees, hconnected'⟩ := connectRest_spec hconnected.keeps.ok
        (forall_mem_cons.mp hwell).2
        (forall_mem_cons.mp hcoinbase).2
        (fun t ht o ho => (hseen t (mem_cons_of_mem _ ht) o ho).of_extends
          hconnected.keeps.grows) hrest
      exact ⟨_, _, hconnected.trans E hconnected'⟩

theorem checkBIP30_spec : ∀ {outpoints : List COutPoint} {c c' : CCoinsViewCache}, c.Ok →
    checkBIP30 c outpoints = .ok c' → ReadSpec c c' ∧ ∀ o ∈ outpoints, c.utxo o = none
  | [], c, c', hok, h => by
      simp only [checkBIP30, pure_eq_ok_iff] at h
      subst h
      exact ⟨ReadSpec.refl hok, fun o ho => absurd ho not_mem_nil⟩
  | outpoint :: rest, c, c', hok, h => by
      obtain ⟨hhave, hread⟩ := haveCoin_spec hok outpoint
      rw [checkBIP30] at h
      generalize c.haveCoin outpoint = result at hhave hread h
      obtain ⟨found, c₁⟩ := result
      cases found with
      | true => cases h
      | false =>
        obtain ⟨hread', hrest⟩ := checkBIP30_spec hread.ok h
        refine ⟨hread.trans hread', fun o ho => ?_⟩
        rcases mem_cons.mp ho with rfl | ho
        · exact absent_of_not_found hhave rfl
        · rw [← hread.utxo]
          exact hrest o ho

theorem mem_createdBy {o : COutPoint}
    (h : o ∈ (E.created nHeight tx).map Prod.fst) : o ∈ E.createdBy tx := by
  obtain ⟨kv, hkv, rfl⟩ := mem_map.mp h
  obtain ⟨hhash, -, hhigh, -⟩ := mem_coinsFrom hkv
  refine mem_map.mpr ⟨kv.1.n, mem_range.mpr (by omega), ?_⟩
  rw [← hhash]

theorem connectTxs_spec (hok : s.view.Ok) (hwell : BlockWellFormed block)
    (hnew : ∀ o ∈ block.vtx.flatMap E.createdBy, s.view.utxo o = none)
    (h : block.vtx.foldlM (E.connectTransaction pindex) s = .ok s') :
    ∃ vtxundo fees, E.Connected pindex.nHeight s block.vtx ([] :: vtxundo) fees s' := by
  obtain ⟨coinbase, rest, hvtx, hcoinbase, hothers⟩ := hwell.coinbase
  have htxs := hwell.txs
  rw [hvtx] at hnew h htxs ⊢
  have hnew : ∀ tx ∈ coinbase :: rest, ∀ o ∈ (E.created pindex.nHeight tx).map Prod.fst,
      s.view.utxo o = none := by
    intro tx htx o ho
    exact hnew o (mem_flatMap.mpr ⟨tx, htx, E.mem_createdBy ho⟩)
  have hseen : ∀ tx ∈ coinbase :: rest, ∀ o ∈ (E.created pindex.nHeight tx).map Prod.fst,
      SeenOnTop s.view o :=
    fun tx htx o ho hpresent => absurd (hnew tx htx o ho) hpresent
  rw [foldlM_cons, bind_eq_ok] at h
  obtain ⟨s₁, hfirst, hrest⟩ := h
  obtain ⟨vprevout, fee, hconnected⟩ := E.connectTransaction_spec hok
    (htxs coinbase mem_cons_self) (hseen coinbase mem_cons_self)
    (fun _ => hnew coinbase mem_cons_self) hfirst
  obtain ⟨vtxundo, fees, hconnected'⟩ := E.connectRest_spec hconnected.keeps.ok
    (forall_mem_cons.mp htxs).2 hothers
    (fun t ht o ho => (hseen t (mem_cons_of_mem _ ht) o ho).of_extends
      hconnected.keeps.grows) hrest
  have hnone : vprevout = [] := by
    cases hconnected.txs with
    | cons htx _ =>
      have hheld := htx.held
      rw [spent_of_isCoinBase hcoinbase] at hheld
      exact forall₂_nil_left_iff.mp hheld
  subst hnone
  exact ⟨vtxundo, fee + fees, hconnected.trans E hconnected'⟩

/-! ### The block -/

/-- The view after the block, its undo data and its fees. -/
structure BlockConnects (block : CBlock) (pindex : CBlockIndex) (coins : Utxo)
    (vtxundo : CBlockUndo) (fees : Int) (view' : CCoinsViewCache) : Prop where
  txs : E.TxsConnect pindex.nHeight coins block.vtx ([] :: vtxundo) fees
  ok : view'.Ok
  utxo : view'.utxo = replay coins (E.blockLog pindex.nHeight block)
  /-- No output of the block was there before, not even an unspendable one. -/
  new : ∀ o ∈ block.vtx.flatMap E.createdBy, coins o = none
  hashBlock : view'.hashBlock = pindex.getBlockHash

theorem setBestBlock_ok (hok : c.Ok) (hashBlock : UInt256) : (c.setBestBlock hashBlock).Ok :=
  ⟨hok.base_ok, hok.cache_ok⟩

theorem setBestBlock_extends (c : CCoinsViewCache) (hashBlock : UInt256) :
    Extends c (c.setBestBlock hashBlock) := ⟨rfl, rfl, fun _ h => h, fun _ _ h => h⟩

theorem setBestBlock_utxo (c : CCoinsViewCache) (hashBlock : UInt256) :
    (c.setBestBlock hashBlock).utxo = c.utxo := rfl

theorem connectTransactions_spec {pprev : CBlockIndex}
    (hok : view.Ok) (hwell : BlockWellFormed block) (hbip30 : E.enforceBIP30 pindex pprev = true)
    (h : E.connectTransactions block pindex pprev view tip false = .ok (view', vtxundo)) :
    ∃ fees, E.BlockConnects block pindex view.utxo vtxundo fees view' ∧
      E.checkPop block pindex fees tip = .ok () := by
  simp only [connectTransactions, hbip30, if_true, bind_eq_ok, require_eq_ok, exists_const,
    pure_eq_ok_iff, Prod.mk.injEq, Bool.false_eq_true, if_false] at h
  obtain ⟨c₁, hbip, s, htxs, _, hpop, -, rfl, rfl⟩ := h
  obtain ⟨hread, hnew⟩ := checkBIP30_spec hok hbip
  rw [← hread.utxo] at hnew
  obtain ⟨vtxundo, fees, hconnected⟩ := E.connectTxs_spec (s := { view := c₁ }) hread.ok hwell
    hnew htxs
  have hutxo := hconnected.utxo
  have htxs := hconnected.txs
  have hfees := hconnected.nFees
  simp only [Int.zero_add] at hfees
  rw [hread.utxo] at hutxo htxs
  rw [hconnected.txundos]
  rw [hread.utxo] at hnew
  refine ⟨fees, ⟨htxs, setBestBlock_ok hconnected.keeps.ok _, hutxo, hnew, rfl⟩, ?_⟩
  rwa [hfees] at hpop

theorem connectGenesis_spec (hok : view.Ok) (hwell : BlockWellFormed block)
    (hempty : ∀ o, view.utxo o = none)
    (h : E.connectGenesis block pindex view false = .ok (view', vtxundo)) :
    E.BlockConnects block pindex view.utxo vtxundo 0 view' := by
  obtain ⟨coinbase, rest, hvtx, hcoinbase, -⟩ := hwell.coinbase
  have hnone := spent_of_isCoinBase hcoinbase
  rw [connectGenesis, hvtx] at h
  cases rest with
  | cons _ _ => cases h
  | nil =>
    simp only [bind_eq_ok, Prod.exists, pure_eq_ok_iff, Prod.mk.injEq, Bool.false_eq_true,
      if_false] at h
    obtain ⟨txundo, c₁, hupdate, rfl, rfl⟩ := h
    obtain ⟨hkeeps, -, hutxo, -⟩ := E.updateCoins_spec hok (hnone ▸ nodup_nil)
      (by simp [hnone]) (by simp [hcoinbase]) hupdate
    have htx : E.TxConnects pindex.nHeight view.utxo coinbase [] 0 := by
      refine ⟨hnone ▸ List.Forall₂.nil, ?_, by simp, by simp [hcoinbase], fun _ => rfl⟩
      intro o _
      rw [hnone]
      exact hempty o
    refine ⟨?_, setBestBlock_ok hkeeps.ok _, ?_, fun o _ => hempty o, rfl⟩
    · rw [hvtx]
      exact .cons htx (.nil _)
    · rw [setBestBlock_utxo, hutxo, blockLog, hvtx, flatMap_cons, flatMap_nil,
        append_nil]

/-- Genesis starts from nothing; BIP30 is enforced for every other block. -/
def Connectable (block : CBlock) (pindex : CBlockIndex) (view : CCoinsViewCache) : Prop :=
  if E.blockHash block.header = E.consensus.hashGenesisBlock then ∀ o, view.utxo o = none
  else ∀ pprev, pindex.pprev = some pprev → E.enforceBIP30 pindex pprev = true

/-- **`ConnectBlock` refines the ledger.** -/
theorem connectBlock_spec (hok : view.Ok)
    (hwell : BlockWellFormed block) (hconnectable : E.Connectable block pindex view)
    (h : E.connectBlock block pindex view tip false = .ok (view', vtxundo)) :
    pindex.getBlockHash = E.blockHash block.header ∧
      (pindex.pprev.map CBlockIndex.getBlockHash).getD 0 = view.bestBlock ∧
      ∃ fees, E.BlockConnects block pindex view.utxo vtxundo fees view' ∧
        (E.blockHash block.header ≠ E.consensus.hashGenesisBlock →
          E.checkPop block pindex fees tip = .ok ()) := by
  simp only [connectBlock, applyBlock, bind_eq_ok, require_eq_ok, exists_const, beq_iff_eq] at h
  obtain ⟨hhash, _, -, hbest, h⟩ := h
  obtain ⟨hbestBlock, hok₁, hutxo₁, -⟩ := getBestBlock_spec hok
  refine ⟨hhash, hbest.trans hbestBlock, ?_⟩
  unfold Connectable at hconnectable
  by_cases hgenesis : E.blockHash block.header = E.consensus.hashGenesisBlock
  · rw [if_pos hgenesis] at hconnectable h
    have hconnects := E.connectGenesis_spec hok₁ hwell (by rwa [hutxo₁]) h
    rw [hutxo₁] at hconnects
    exact ⟨0, hconnects, fun hnot => absurd hgenesis hnot⟩
  · rw [if_neg hgenesis] at hconnectable h
    cases hpprev : pindex.pprev with
    | none =>
      rw [hpprev] at h
      cases h
    | some pprev =>
      rw [hpprev] at h
      obtain ⟨fees, hconnects, hpop⟩ := E.connectTransactions_spec hok₁ hwell
        (hconnectable pprev hpprev) h
      rw [hutxo₁] at hconnects
      exact ⟨fees, hconnects, fun _ => hpop⟩

end NodeEnv

end VBitcoin
