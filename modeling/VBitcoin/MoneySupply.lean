import VBitcoin.AmountSafety
import VBitcoin.BlockRecheck

/-!
**The money supply** — the value of all coins that a chain leaves, where PoP starts with
genesis: at most what genesis pays, the subsidies, and the rewards that were due.
`ConnectBlock` applies blocks that `CheckBlock` rejects, and with a second coinbase the bound
does not hold (`twoCoinbases_inflate`).
-/

namespace VBitcoin

open WriteLog List

def coinValue (coin : Coin) : Int := coin.out.nValue

/-! ### One transaction -/

theorem coinsFrom_value_le (txid : UInt256) (fCoinBase : Bool) (nHeight : Nat)
    (vout : List CTxOut) : ∀ n, (∀ txout ∈ vout, 0 ≤ txout.nValue) →
      ((coinsFrom txid fCoinBase nHeight n vout).map fun kv => coinValue kv.2).sum ≤
        (vout.map CTxOut.nValue).sum := by
  induction vout with
  | nil => intro n _; exact le_refl _
  | cons txout rest ih =>
    intro n hpos
    have hrest := ih (n + 1) (forall_mem_cons.mp hpos).2
    have hvalue := hpos txout mem_cons_self
    cases hscript : isUnspendable txout.scriptPubKey with
    | true =>
      rw [coinsFrom_cons_of_unspendable hscript, map_cons, sum_cons]
      omega
    | false =>
      rw [coinsFrom_cons_of_spendable hscript, map_cons, sum_cons, map_cons,
        sum_cons]
      exact Int.add_le_add_left hrest txout.nValue

namespace NodeEnv

variable (E : NodeEnv)

variable {nHeight : Nat} {coins : Utxo} {tx : CTransaction} {fees : Int} {chain : List CBlock}

variable {vprevout : List Coin} {fee bound : Int} {block : CBlock} {vtxundo : CBlockUndo}

theorem TxConnects.totalLe (h : E.TxConnects nHeight coins tx vprevout fee)
    (hwell : TxWellFormed tx) (hcoins : TotalLe coinValue coins bound) :
    TotalLe coinValue (replay coins (E.txLog nHeight tx))
      (bound - (vprevout.map coinValue).sum + tx.valueOut) := by
  have hnonneg : ∀ txout ∈ tx.vout, 0 ≤ txout.nValue :=
    fun txout htxout => (moneyRange_iff.mp (hwell.values txout htxout)).1
  have hnodup : tx.spent.Nodup := hwell.nodup.sublist tx.spent_sublist
  rw [txLog, replay_append]
  have hcreated : ∀ kv ∈ E.created nHeight tx, 0 ≤ coinValue kv.2 := by
    intro kv hkv
    exact hnonneg _ (mem_coinsFrom hkv).2.2.2.1
  have hafter := (hcoins.removes hnodup h.held).puts hcreated
  exact hafter.mono (Int.add_le_add_left
    (coinsFrom_value_le (E.txid tx) tx.isCoinBase nHeight tx.vout 0 hnonneg) _)

theorem TxConnects.totalLe_fee (h : E.TxConnects nHeight coins tx vprevout fee)
    (hwell : TxWellFormed tx) (hcoinbase : tx.isCoinBase = false)
    (hcoins : TotalLe coinValue coins bound) :
    TotalLe coinValue (replay coins (E.txLog nHeight tx)) (bound - fee) := by
  apply (h.totalLe E hwell hcoins).mono
  have hbalance := h.balance hcoinbase
  change (vprevout.map coinValue).sum = _ at hbalance
  omega

theorem TxsConnect.totalLe {vtx : List CTransaction}
    {vtxundo : List (List Coin)} (h : E.TxsConnect nHeight coins vtx vtxundo fees) :
    ∀ {bound : Int}, (∀ tx ∈ vtx, TxWellFormed tx) → (∀ tx ∈ vtx, tx.isCoinBase = false) →
      TotalLe coinValue coins bound →
      TotalLe coinValue (replay coins (vtx.flatMap (E.txLog nHeight))) (bound - fees) := by
  induction h with
  | nil coins =>
    intro bound _ _ hcoins
    rw [sub_zero]
    exact hcoins
  | @cons coins tx rest vprevout vtxundo fee fees htx _ ih =>
    intro bound hwell hcoinbase hcoins
    have hfirst := htx.totalLe_fee E (hwell tx mem_cons_self)
      (hcoinbase tx mem_cons_self) hcoins
    have hrest := ih (forall_mem_cons.mp hwell).2
      (forall_mem_cons.mp hcoinbase).2 hfirst
    rw [flatMap_cons, replay_append, ← sub_sub]
    exact hrest

/-! ### One block -/

theorem checkCoinbaseWithRewards_valueOut {nFees : Int} {rewards : PoPRewards} {u : Unit}
    (h : E.checkCoinbaseWithRewards tx nFees nHeight rewards = .ok u) :
    tx.valueOut ≤
      (rewards.entries.map Prod.snd).sum + E.getBlockSubsidy nHeight + nFees := by
  simp only [checkCoinbaseWithRewards, bind_eq_ok, require_eq_ok, exists_const,
    decide_eq_true_eq] at h
  obtain ⟨-, -, payouts, -, total, htotal, value, hvalue, allowed, hallowed, allowed', hallowed',
    hle⟩ := h
  have hsum : ∀ {entries : List (CScript × Int)} {start total : Int},
      entries.foldlM (E.checkReward tx payouts) start = .ok total →
        total = start + (entries.map Prod.snd).sum := by
    intro entries
    induction entries with
    | nil =>
      intro start total h
      cases h
      simp
    | cons reward rest ih =>
      intro start total h
      rw [foldlM_cons, bind_eq_ok] at h
      obtain ⟨mid, hmid, hrest⟩ := h
      unfold checkReward at hmid
      split at hmid
      · cases hmid
      · obtain ⟨_, -, hadd⟩ := bind_eq_ok.mp hmid
        rw [ih hrest, (addAmount_eq_ok.mp hadd).1, map_cons, sum_cons]
        omega
  rw [getValueOut_eq_ok hvalue, (addAmount_eq_ok.mp hallowed').1,
    (addAmount_eq_ok.mp hallowed).1, hsum htotal] at hle
  omega

def rewardsDue (tip : Option CBlockIndex) : Int :=
  match tip with
  | none => 0
  | some tip =>
    match E.getPopRewards tip with
    | .ok rewards => (rewards.entries.map Prod.snd).sum
    | .error _ => 0

/-- Genesis, and for each later block the subsidy and the rewards due. -/
def moneyBound : List CBlock → Int
  | [] => 0
  | [genesis] => (genesis.vtx.map CTransaction.valueOut).sum
  | _ :: parent :: chain =>
    moneyBound (parent :: chain) + E.getBlockSubsidy (chain.length + 1) +
      E.rewardsDue (E.tipIndex (parent :: chain))

theorem ConnectsOn.valueOut_le {parent : CBlock}
    (h : E.ConnectsOn (parent :: chain) block vtxundo fees) (hboot : E.pop.bootstrapHeight = 0)
    {coinbase : CTransaction} {rest : List CTransaction} (hvtx : block.vtx = coinbase :: rest) :
    coinbase.valueOut ≤ E.rewardsDue (E.tipIndex (parent :: chain)) +
      E.getBlockSubsidy (chain.length + 1) + fees := by
  have hpop := h.pop (cons_ne_nil _ _)
  have hcrossed : E.isCrossedBootstrapBlock (E.tipIndex (parent :: chain)) = true := by
    simp [isCrossedBootstrapBlock, tipIndex, isCrossedBootstrapBlockAt, hboot]
  simp only [checkPop, hcrossed, if_true, hvtx, bind_eq_ok] at hpop
  obtain ⟨_, hcheck, -⟩ := hpop
  rw [checkCoinbaseTxWithPopRewards, blockIndex_pprev] at hcheck
  simp only [tipIndex, bind_eq_ok, blockIndex_nHeight, length_cons] at hcheck
  obtain ⟨rewards, hrewards, hcheck⟩ := hcheck
  have hvalue := E.checkCoinbaseWithRewards_valueOut hcheck
  simp only [rewardsDue, tipIndex, hrewards]
  exact hvalue

/-- **One more block** raises the total by at most its subsidy and the rewards. -/
theorem ConnectsOn.totalLe
    (h : E.ConnectsOn chain block vtxundo fees) (hboot : E.pop.bootstrapHeight = 0)
    (hchain : TotalLe coinValue (E.utxoOf chain) (E.moneyBound chain)) :
    TotalLe coinValue (E.utxoOf (block :: chain)) (E.moneyBound (block :: chain)) := by
  obtain ⟨coinbase, rest, hvtx, hcoinbase, hothers⟩ := h.well.coinbase
  have hwell := h.well.txs
  have htxs := h.txs
  rw [hvtx] at hwell htxs
  rw [utxoOf, blockLog, hvtx, flatMap_cons, replay_append]
  cases htxs with
  | @cons _ _ _ _ _ fee fees htx hrest =>
    have hfee := htx.coinbase hcoinbase
    have hfirst := htx.totalLe E (hwell coinbase mem_cons_self) hchain
    rw [map_nil, sum_nil, sub_zero] at hfirst
    have hafter := hrest.totalLe E (forall_mem_cons.mp hwell).2 hothers hfirst
    apply hafter.mono
    cases chain with
    | nil =>
      -- genesis has no other transactions, and so no fees
      obtain ⟨tx, hsingle⟩ := h.genesis rfl
      obtain ⟨rfl, rfl⟩ : coinbase = tx ∧ rest = [] := by
        rw [hvtx] at hsingle
        exact ⟨(List.cons.inj hsingle).1, (List.cons.inj hsingle).2⟩
      cases hrest
      simp [moneyBound, hvtx]
    | cons parent chain =>
      have hvalue := h.valueOut_le E hboot hvtx
      rw [moneyBound]
      omega

/-- **The coins of a chain are worth at most what was paid out.** -/
theorem LedgerChain.totalLe (h : E.LedgerChain chain) (hboot : E.pop.bootstrapHeight = 0) :
    TotalLe coinValue (E.utxoOf chain) (E.moneyBound chain) := by
  induction h with
  | nil => exact totalLe_empty
  | cons _ hon ih => exact hon.totalLe E hboot ih

/-! ### Runs -/

/-- From genesis on: nothing else looks at the blocks. -/
inductive Applied : List CBlock → CCoinsViewCache → Prop
  | empty {view : CCoinsViewCache} : view.Ok → (∀ o, view.utxo o = none) → view.bestBlock = 0 →
      Applied [] view
  | connect {chain : List CBlock} {view view' : CCoinsViewCache} {block : CBlock}
      {vtxundo : CBlockUndo} : Applied chain view →
      E.connectBlock block (E.blockIndex block chain) view (E.tipIndex chain) false =
        .ok (view', vtxundo) →
      Applied (block :: chain) view'
  | move {chain : List CBlock} {view view' : CCoinsViewCache} : Applied chain view →
      view'.Ok → view'.utxo = view.utxo → view'.bestBlock = view.bestBlock →
      Applied chain view'

theorem Applied.connectsTo {view : CCoinsViewCache}
    (h : E.Applied chain view) (hchecked : ∀ block ∈ chain, E.checkBlockRules block true = .ok ()) :
    E.ConnectsTo chain view := by
  induction h with
  | empty hok hempty hbest => exact .empty hok hempty hbest
  | move _ hok hutxo hbest ih => exact .move (ih hchecked) hok hutxo hbest
  | connect _ hconnect ih =>
    have hrest := ih (forall_mem_cons.mp hchecked).2
    exact .connect hrest (hchecked _ mem_cons_self) hconnect

/-- **The money supply is bounded** along every run of checked blocks, and one more overflows
    nowhere. -/
theorem money_supply_bounded {chain : List CBlock} {view : CCoinsViewCache}
    (hboot : E.pop.bootstrapHeight = 0) (hhashes : E.ChainHashes chain)
    (happlied : E.Applied chain view)
    (hchecked : ∀ block ∈ chain, E.checkBlockRules block true = .ok ()) :
    TotalLe coinValue view.utxo (E.moneyBound chain) ∧
      ∀ block, E.ChainHashes (block :: chain) → E.checkBlockRules block true = .ok () →
        E.connectBlock block (E.blockIndex block chain) view (E.tipIndex chain) false ≠
          .error .overflow := by
  obtain ⟨hledger, hview⟩ := (happlied.connectsTo E hchecked).ledger E hhashes
  constructor
  · rw [hview.utxo]
    exact hledger.totalLe E hboot
  · intro block hnext hcheck hoverflow
    exact E.connectBlock_noOverflow hledger hview hnext hcheck _ hoverflow rfl

end NodeEnv

namespace Regtest

def applyAll : List CBlock → Option CCoinsViewCache
  | [] => some { base := .db CCoinsViewDB.new }
  | block :: chain =>
    match applyAll chain with
    | none => none
    | some view =>
      match env.connectBlock block (env.blockIndex block chain) view (env.tipIndex chain) false with
      | .error _ => none
      | .ok (view', _) => some view'

theorem applied_of_applyAll {chain : List CBlock} : ∀ {view : CCoinsViewCache},
    applyAll chain = some view → env.Applied chain view := by
  induction chain with
  | nil =>
    intro view h
    cases h
    exact .empty ⟨trivial, CacheOk.empty _⟩ (fun _ => rfl) rfl
  | cons block chain ih =>
    intro view h
    rw [applyAll] at h
    split at h
    · cases h
    · rename_i before hbefore
      split at h
      · cases h
      · rename_i after vtxundo hconnect
        cases h
        exact .connect (ih hbefore) hconnect

/-- The block with two coinbases makes every coin there can be. -/
theorem twoCoinbases_inflate : env.pop.bootstrapHeight = 0 ∧
    env.ChainHashes [twoCoinbases, genesis] ∧
    ∃ view, env.Applied [twoCoinbases, genesis] view ∧
      ¬ TotalLe coinValue view.utxo (env.moneyBound [twoCoinbases, genesis]) := by
  let inflated : COutPoint := ⟨env.txid (coinbase [0x51, 0x01] MAX_MONEY), 0⟩
  have hrun : Plain [twoCoinbases, genesis] ∧ ∃ view ∈ applyAll [twoCoinbases, genesis],
      env.moneyBound [twoCoinbases, genesis] < weightAt coinValue view.utxo inflated := by
    decide +kernel
  obtain ⟨hplain, view, hview, hmore⟩ := hrun
  refine ⟨rfl, hplain.hashes, view, applied_of_applyAll hview, ?_⟩
  intro h
  have hone := h {inflated}
  rw [Finset.sum_singleton] at hone
  omega

/-- Genesis and a block that claims nothing. -/
theorem fillerBlock_bounded : ∃ view, env.Applied (fillerChain 1) view ∧
    TotalLe coinValue view.utxo (30 * COIN + 50 * COIN) := by
  have hrun : Plain (fillerChain 1) ∧ (applyAll (fillerChain 1)).isSome = true ∧
      env.moneyBound (fillerChain 1) = 30 * COIN + 50 * COIN := by decide +kernel
  obtain ⟨hplain, hsome, hbound⟩ := hrun
  obtain ⟨view, hview⟩ := Option.isSome_iff_exists.mp hsome
  have happlied := applied_of_applyAll hview
  refine ⟨view, happlied, ?_⟩
  rw [← hbound]
  exact (env.money_supply_bounded rfl hplain.hashes happlied (by decide +kernel)).1

end Regtest

end VBitcoin
