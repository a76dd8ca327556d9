import VBitcoin.ConnectSpec
import VBitcoin.Undo

/-!
**Taking a block back** (`validation.cpp`, `coins.cpp`) — `ApplyTxInUndo`, `DisconnectBlock`
and `AccessByTxid`.  A coin of height zero in the undo data is taken for one without metadata,
which are copied from another output of its transaction.  So taking back is not quite the
replay of a log: `undoRun` fails where there is no other output.
-/

namespace VBitcoin

open WriteLog List

/-! ### The code -/

def MIN_TRANSACTION_OUTPUT_WEIGHT : Nat := WITNESS_SCALE_FACTOR * 9
def MAX_OUTPUTS_PER_BLOCK : Nat := MAX_BLOCK_WEIGHT / MIN_TRANSACTION_OUTPUT_WEIGHT

inductive DisconnectResult where
  | DISCONNECT_OK
  | DISCONNECT_UNCLEAN
  | DISCONNECT_FAILED
  deriving DecidableEq, Repr

def accessByTxidFrom (txid : UInt256) : Nat → Nat → CCoinsViewCache → Coin × CCoinsViewCache
  | 0, _, view => (Coin.empty, view)
  | left + 1, n, view =>
    match view.accessCoin ⟨txid, n⟩ with
    | (alternate, view) =>
      if alternate.isSpent then accessByTxidFrom txid left (n + 1) view else (alternate, view)

/-- The first unspent output of a transaction, or the empty coin. -/
def accessByTxid (view : CCoinsViewCache) (txid : UInt256) : Coin × CCoinsViewCache :=
  accessByTxidFrom txid MAX_OUTPUTS_PER_BLOCK 0 view

/-- The metadata of an undo coin; a height of zero means that they are missing. -/
def recoverMetadata (undo : Coin) (view : CCoinsViewCache) (out : COutPoint) :
    Option Coin × CCoinsViewCache :=
  if undo.nHeight = 0 then
    match accessByTxid view out.hash with
    | (alternate, view) =>
      if alternate.isSpent then (none, view)
      else (some { undo with nHeight := alternate.nHeight, fCoinBase := alternate.fCoinBase }, view)
  else (some undo, view)

def applyTxInUndo (undo : Coin) (view : CCoinsViewCache) (out : COutPoint) :
    Run (DisconnectResult × CCoinsViewCache) :=
  match view.haveCoin out with
  | (overwrites, view) =>
    match recoverMetadata undo view out with
    | (none, view) => pure (.DISCONNECT_FAILED, view)
    | (some undo, view) => do
      let view ← view.addCoin out undo overwrites
      pure (if overwrites then .DISCONNECT_UNCLEAN else .DISCONNECT_OK, view)

/-- From output `n` on: whether all were as they were created. -/
def removeOutputs (txid : UInt256) (is_coinbase : Bool) (nHeight : Nat) :
    Nat → List CTxOut → Bool → CCoinsViewCache → Bool × CCoinsViewCache
  | _, [], fClean, view => (fClean, view)
  | n, txout :: rest, fClean, view =>
    if isUnspendable txout.scriptPubKey then
      removeOutputs txid is_coinbase nHeight (n + 1) rest fClean view
    else
      match view.spendCoin ⟨txid, n⟩ with
      | (coin, view) =>
        removeOutputs txid is_coinbase nHeight (n + 1) rest
          (fClean && coin == some ⟨txout, nHeight, is_coinbase⟩) view

def restoreInputs : List (COutPoint × Coin) → Bool → CCoinsViewCache →
    Run (DisconnectResult × CCoinsViewCache)
  | [], fClean, view => pure (if fClean then .DISCONNECT_OK else .DISCONNECT_UNCLEAN, view)
  | (out, undo) :: rest, fClean, view => do
    let (res, view) ← applyTxInUndo undo view out
    if res = .DISCONNECT_FAILED then pure (.DISCONNECT_FAILED, view)
    else restoreInputs rest (fClean && res != .DISCONNECT_UNCLEAN) view

namespace NodeEnv

variable (E : NodeEnv)

/-- One turn of `DisconnectBlock`; the first transaction has no undo data. -/
def disconnectTransaction (nHeight : Nat) (tx : CTransaction) (txundo : Option CTxUndo)
    (fClean : Bool) (view : CCoinsViewCache) : Run (DisconnectResult × CCoinsViewCache) :=
  match removeOutputs (E.txid tx) tx.isCoinBase nHeight 0 tx.vout fClean view with
  | (fClean, view) =>
    match txundo with
    | none => restoreInputs [] fClean view
    | some vprevout =>
      if vprevout.length = tx.vin.length then
        restoreInputs ((tx.vin.map CTxIn.prevout).zip vprevout).reverse fClean view
      else pure (.DISCONNECT_FAILED, view)

def disconnectTransactions (nHeight : Nat) : List (CTransaction × Option CTxUndo) → Bool →
    CCoinsViewCache → Run (DisconnectResult × CCoinsViewCache)
  | [], fClean, view => pure (if fClean then .DISCONNECT_OK else .DISCONNECT_UNCLEAN, view)
  | (tx, txundo) :: rest, fClean, view => do
    let (res, view) ← E.disconnectTransaction nHeight tx txundo fClean view
    if res = .DISCONNECT_FAILED then pure (.DISCONNECT_FAILED, view)
    else disconnectTransactions nHeight rest (res == .DISCONNECT_OK) view

/-- The PoP state and the best block move to the parent. -/
def moveToParent (pprev : CBlockIndex) (tip : Option CBlockIndex)
    (result : DisconnectResult × CCoinsViewCache) : Run (DisconnectResult × CCoinsViewCache) :=
  if result.1 = .DISCONNECT_FAILED then pure result
  else do
    onlyIf (E.isCrossedBootstrapBlock tip)
      (require (E.pop.setState pprev.getBlockHash) (.assertion "ok"))
    pure (result.1, result.2.setBestBlock pprev.getBlockHash)

def disconnectBlock (block : CBlock) (pindex : CBlockIndex) (undoFile : Option Bytes)
    (view : CCoinsViewCache) (tip : Option CBlockIndex) :
    Run (DisconnectResult × CCoinsViewCache) :=
  match undoFile, pindex.pprev with
  | none, _ => pure (.DISCONNECT_FAILED, view)
  | some _, none => .error (.undefined "pindex->pprev->GetBlockHash()")
  | some file, some pprev =>
    match E.undoReadFromDisk file pprev.getBlockHash with
    | none => pure (.DISCONNECT_FAILED, view)
    | some vtxundo =>
      if vtxundo.length + 1 = block.vtx.length then do
        let result ← E.disconnectTransactions pindex.nHeight
          (block.vtx.zip (none :: vtxundo.map some)).reverse true view
        E.moveToParent pprev tip result
      else pure (.DISCONNECT_FAILED, view)

end NodeEnv

/-! ### On the ledger -/

/-- The first coin of a transaction from output `n` on, among `left` outputs. -/
def alternateFrom (coins : Utxo) (txid : UInt256) : Nat → Nat → Option Coin
  | 0, _ => none
  | left + 1, n =>
    match coins ⟨txid, n⟩ with
    | some alternate => some alternate
    | none => alternateFrom coins txid left (n + 1)

/-- Nothing if its metadata cannot be recovered. -/
def restoredCoin (coins : Utxo) (out : COutPoint) (undo : Coin) : Option Coin :=
  if undo.nHeight = 0 then
    (alternateFrom coins out.hash MAX_OUTPUTS_PER_BLOCK 0).map fun alternate =>
      { undo with nHeight := alternate.nHeight, fCoinBase := alternate.fCoinBase }
  else some undo

/-- One change of the coin set when a block is taken back. -/
inductive UndoOp where
  /-- An output is removed; it should be there as it was created. -/
  | remove (out : COutPoint) (created : Coin)
  /-- An input is restored; it should not be there. -/
  | restore (out : COutPoint) (undo : Coin)

def undoStep (s : Utxo × Bool) : UndoOp → Option (Utxo × Bool)
  | .remove out created =>
    some (Function.update s.1 out none, s.2 && s.1 out == some created)
  | .restore out undo =>
    (restoredCoin s.1 out undo).map fun coin =>
      (Function.update s.1 out (some coin), s.2 && (s.1 out).isNone)

def undoRun (s : Utxo × Bool) : List UndoOp → Option (Utxo × Bool)
  | [] => some s
  | op :: ops => (undoStep s op).bind fun s => undoRun s ops

theorem undoRun_append (s : Utxo × Bool) (ops ops' : List UndoOp) :
    undoRun s (ops ++ ops') = (undoRun s ops).bind fun s => undoRun s ops' := by
  induction ops generalizing s with
  | nil => rfl
  | cons op ops ih =>
    rw [cons_append, undoRun, undoRun]
    cases undoStep s op with
    | none => rfl
    | some s' => exact ih s'

def Restorable (coin : Coin) : Prop :=
  coin.isSpent = false ∧ isUnspendable coin.out.scriptPubKey = false

def removals (created : List (COutPoint × Coin)) : List UndoOp :=
  created.map fun kv => .remove kv.1 kv.2

def restorals (spent : List (COutPoint × Coin)) : List UndoOp :=
  spent.map fun kv => .restore kv.1 kv.2

def resultOf (fClean : Bool) : DisconnectResult :=
  if fClean then .DISCONNECT_OK else .DISCONNECT_UNCLEAN

/-- A result and the view left behind agree with what happens on the ledger. -/
def Agrees (view : CCoinsViewCache) (res : DisconnectResult) (view' : CCoinsViewCache) :
    Option (Utxo × Bool) → Prop
  | none => res = .DISCONNECT_FAILED
  | some s => res = resultOf s.2 ∧ Keeps view view' ∧ view'.utxo = s.1

/-- A part of `DisconnectBlock` does what some operations do on the ledger. -/
def TakesBack (view : CCoinsViewCache) (fClean : Bool) (ops : List UndoOp)
    (run : Run (DisconnectResult × CCoinsViewCache)) : Prop :=
  ∃ res view', run = .ok (res, view') ∧ Agrees view res view' (undoRun (view.utxo, fClean) ops)

/-! ### The code does it -/

theorem accessByTxidFrom_spec (txid : UInt256) : ∀ (left n : Nat) {view : CCoinsViewCache},
    view.Ok → (accessByTxidFrom txid left n view).1 =
        (alternateFrom view.utxo txid left n).getD Coin.empty ∧
      ReadSpec view (accessByTxidFrom txid left n view).2
  | 0, n, view, hok => ⟨rfl, ReadSpec.refl hok⟩
  | left + 1, n, view, hok => by
      obtain ⟨hcoin, hread⟩ := accessCoin_spec hok ⟨txid, n⟩
      rw [accessByTxidFrom, alternateFrom]
      generalize view.accessCoin ⟨txid, n⟩ = result at hcoin hread ⊢
      obtain ⟨alternate, view₁⟩ := result
      simp only at hcoin hread ⊢
      cases hutxo : view.utxo ⟨txid, n⟩ with
      | none =>
        rw [hutxo] at hcoin
        subst hcoin
        obtain ⟨hrest, hread'⟩ := accessByTxidFrom_spec txid left (n + 1) hread.ok
        rw [hread.utxo] at hrest
        exact ⟨hrest, hread.trans hread'⟩
      | some coin =>
        rw [hutxo] at hcoin
        subst hcoin
        rw [Option.getD_some, view.utxo_unspent hutxo]
        exact ⟨rfl, hread⟩

theorem alternateFrom_unspent {view : CCoinsViewCache} {txid : UInt256} {coin : Coin} :
    ∀ {left n : Nat}, alternateFrom view.utxo txid left n = some coin → coin.isSpent = false
  | left + 1, n, h => by
      rw [alternateFrom] at h
      split at h
      · rename_i hutxo
        cases h
        exact view.utxo_unspent hutxo
      · exact alternateFrom_unspent h

variable {view : CCoinsViewCache} {undo coin : Coin}

theorem recoverMetadata_spec (hok : view.Ok) (undo : Coin) (out : COutPoint) :
    (recoverMetadata undo view out).1 = restoredCoin view.utxo out undo ∧
      ReadSpec view (recoverMetadata undo view out).2 := by
  unfold recoverMetadata restoredCoin
  by_cases hheight : undo.nHeight = 0
  · rw [if_pos hheight, if_pos hheight]
    obtain ⟨hcoin, hread⟩ := accessByTxidFrom_spec out.hash MAX_OUTPUTS_PER_BLOCK 0 hok
    unfold accessByTxid
    generalize accessByTxidFrom out.hash MAX_OUTPUTS_PER_BLOCK 0 view = result at hcoin hread ⊢
    obtain ⟨alternate, view₁⟩ := result
    simp only at hcoin hread ⊢
    cases halternate : alternateFrom view.utxo out.hash MAX_OUTPUTS_PER_BLOCK 0 with
    | none =>
      rw [halternate] at hcoin
      subst hcoin
      exact ⟨rfl, hread⟩
    | some coin =>
      rw [halternate] at hcoin
      subst hcoin
      rw [alternateFrom_unspent halternate]
      exact ⟨rfl, hread⟩
  · rw [if_neg hheight, if_neg hheight]
    exact ⟨rfl, ReadSpec.refl hok⟩

variable {coins : Utxo} {out : COutPoint}

theorem restoredCoin_out (h : restoredCoin coins out undo = some coin) : coin.out = undo.out := by
  unfold restoredCoin at h
  split at h
  · obtain ⟨alternate, -, rfl⟩ := Option.map_eq_some_iff.mp h
    rfl
  · cases h
    rfl

theorem Restorable.of_restored
    (hundo : Restorable undo) (h : restoredCoin coins out undo = some coin) : Restorable coin := by
  have hout := restoredCoin_out h
  unfold Restorable Coin.isSpent at hundo ⊢
  rwa [hout]

theorem Utxo.add_of_restorable (h : Restorable coin) (coins : Utxo)
    (out : COutPoint) : coins.add out coin = Function.update coins out (some coin) := by
  rw [Utxo.add, h.2]
  rfl

/-- **`ApplyTxInUndo`** restores one coin. -/
theorem applyTxInUndo_spec (hok : view.Ok) (hundo : Restorable undo) (out : COutPoint) :
    TakesBack view true [.restore out undo] (applyTxInUndo undo view out) := by
  obtain ⟨hhave, hread⟩ := haveCoin_spec hok out
  unfold applyTxInUndo TakesBack
  generalize view.haveCoin out = result at hhave hread ⊢
  obtain ⟨overwrites, view₁⟩ := result
  simp only at hhave hread ⊢
  obtain ⟨hrecover, hread'⟩ := recoverMetadata_spec hread.ok undo out
  rw [hread.utxo] at hrecover
  simp only [undoRun, undoStep]
  rw [← hrecover]
  generalize recoverMetadata undo view₁ out = result at hrecover hread' ⊢
  obtain ⟨recovered, view₂⟩ := result
  have hreads : ReadSpec view view₂ := hread.trans hread'
  cases recovered with
  | none => exact ⟨_, _, rfl, rfl⟩
  | some coin =>
    have hcoin : Restorable coin := hundo.of_restored hrecover.symm
    have hpromise : overwrites = false → isUnspendable coin.out.scriptPubKey = false →
        view₂.utxo out = none :=
      fun hoverwrites _ => hreads.utxo ▸ absent_of_not_found hhave hoverwrites
    obtain ⟨view₃, hadd, hkeeps, hutxo⟩ := addCoin_spec hreads.ok hcoin.1 hpromise
    rw [Utxo.add_of_restorable hcoin, hreads.utxo] at hutxo
    refine ⟨_, view₃, by simp only [hadd, ok_bind]; rfl, ?_, hreads.toKeeps.trans hkeeps, hutxo⟩
    rw [hhave]
    cases view.utxo out <;> rfl

theorem undoStep_flag (coins : Utxo) (fClean : Bool) (op : UndoOp) :
    undoStep (coins, fClean) op =
      (undoStep (coins, true) op).map fun s => (s.1, fClean && s.2) := by
  cases op with
  | remove out created => simp [undoStep]
  | restore out undo => cases h : restoredCoin coins out undo <;> simp [undoStep, h]

theorem TakesBack.nil (hok : view.Ok) (fClean : Bool) :
    TakesBack view fClean [] (pure (resultOf fClean, view)) :=
  ⟨_, _, rfl, rfl, Keeps.refl hok, rfl⟩

theorem resultOf_ne_failed (fClean : Bool) : resultOf fClean ≠ .DISCONNECT_FAILED := by
  cases fClean <;> decide

theorem Agrees.trans {view' view'' : CCoinsViewCache} {res : DisconnectResult}
    (hkeeps : Keeps view view') : ∀ {s : Option (Utxo × Bool)},
      Agrees view' res view'' s → Agrees view res view'' s
  | none, h => h
  | some _, h => ⟨h.1, hkeeps.trans h.2.1, h.2.2⟩

theorem restoreInputs_spec : ∀ {spent : List (COutPoint × Coin)} {view : CCoinsViewCache},
    view.Ok → (∀ kv ∈ spent, Restorable kv.2) → ∀ fClean,
      TakesBack view fClean (restorals spent) (restoreInputs spent fClean view)
  | [], view, hok, _, fClean => TakesBack.nil hok fClean
  | (out, undo) :: rest, view, hok, hspent, fClean => by
      obtain ⟨res, view', hrun, hres⟩ := applyTxInUndo_spec hok
        (hspent (out, undo) mem_cons_self) out
      unfold TakesBack
      rw [restoreInputs, hrun, ok_bind, restorals, map_cons, undoRun, undoStep_flag]
      rw [undoRun] at hres
      cases hstep : undoStep (view.utxo, true) (.restore out undo) with
      | none =>
        rw [hstep] at hres
        have hres : res = .DISCONNECT_FAILED := hres
        subst hres
        exact ⟨_, _, rfl, rfl⟩
      | some s =>
        rw [hstep] at hres
        obtain ⟨rfl, hkeeps, hutxo⟩ := hres
        have hflag : (resultOf s.2 != .DISCONNECT_UNCLEAN) = s.2 := by cases s.2 <;> rfl
        obtain ⟨res', view'', hrest, hres'⟩ := restoreInputs_spec hkeeps.ok
          (forall_mem_cons.mp hspent).2 (fClean && s.2)
        rw [hutxo] at hres'
        refine ⟨res', view'', ?_, hres'.trans hkeeps⟩
        simp only [if_neg (resultOf_ne_failed _), hflag, hrest]

theorem spendCoin_beq (hok : view.Ok) (out : COutPoint) (hcoin : coin.isSpent = false) :
    ((view.spendCoin out).1 == some coin) = (view.utxo out == some coin) := by
  obtain ⟨hmoved, hpresent, -, -⟩ := spendCoin_spec hok out
  cases hutxo : view.utxo out with
  | some c =>
    rw [hpresent (by rw [hutxo]; exact Option.some_ne_none c), hutxo]
  | none =>
    rw [hutxo] at hmoved
    cases hresult : (view.spendCoin out).1 with
    | none => rfl
    | some c =>
      -- what was found is an entry of a spent coin
      rw [hresult] at hmoved
      have hc : c = Coin.empty := hmoved
      subst hc
      have hne : Coin.empty ≠ coin := by
        rintro rfl
        cases hcoin
      simp [hne]

theorem removeOutputs_spec (txid : UInt256) (is_coinbase : Bool) (nHeight : Nat) :
    ∀ {vout : List CTxOut} {n : Nat} {view : CCoinsViewCache}, view.Ok →
      (∀ txout ∈ vout, txout.isNull = false) → ∀ fClean,
        ∃ s, undoRun (view.utxo, fClean) (removals (coinsFrom txid is_coinbase nHeight n vout)) =
            some s ∧
          (removeOutputs txid is_coinbase nHeight n vout fClean view).1 = s.2 ∧
          Keeps view (removeOutputs txid is_coinbase nHeight n vout fClean view).2 ∧
          (removeOutputs txid is_coinbase nHeight n vout fClean view).2.utxo = s.1
  | [], n, view, hok, _, fClean => ⟨_, rfl, rfl, Keeps.refl hok, rfl⟩
  | txout :: rest, n, view, hok, hvout, fClean => by
      have hrest : ∀ txout ∈ rest, txout.isNull = false :=
        (forall_mem_cons.mp hvout).2
      cases hscript : isUnspendable txout.scriptPubKey with
      | true =>
        rw [coinsFrom_cons_of_unspendable hscript, removeOutputs, if_pos hscript]
        exact removeOutputs_spec txid is_coinbase nHeight hok hrest fClean
      | false =>
        have hcoin : (⟨txout, nHeight, is_coinbase⟩ : Coin).isSpent = false :=
          hvout txout mem_cons_self
        obtain ⟨-, -, hkeeps, hutxo⟩ := spendCoin_spec hok ⟨txid, n⟩
        have hclean := spendCoin_beq hok ⟨txid, n⟩ hcoin
        obtain ⟨s, hrun, hflag, hkeeps', hutxo'⟩ := removeOutputs_spec txid is_coinbase nHeight
          (n := n + 1) hkeeps.ok hrest
          (fClean && (view.spendCoin ⟨txid, n⟩).1 == some ⟨txout, nHeight, is_coinbase⟩)
        rw [hutxo, hclean] at hrun
        rw [coinsFrom_cons_of_spendable hscript, removeOutputs, if_neg (by simp [hscript])]
        exact ⟨s, hrun, hflag, hkeeps.trans hkeeps', hutxo'⟩

namespace NodeEnv

variable (E : NodeEnv)

/-- Takes a transaction back that spent the coins `vprevout`. -/
def undoOps (nHeight : Nat) (tx : CTransaction) (vprevout : CTxUndo) : List UndoOp :=
  removals (E.created nHeight tx) ++ restorals (tx.spent.zip vprevout).reverse

structure UndoFits (tx : CTransaction) (vprevout : CTxUndo) : Prop where
  outputs : ∀ txout ∈ tx.vout, txout.isNull = false
  length : vprevout.length = tx.spent.length
  coins : ∀ coin ∈ vprevout, Restorable coin

theorem disconnectTransaction_spec (nHeight : Nat) {tx : CTransaction} {vprevout : CTxUndo}
    (hfits : UndoFits tx vprevout) {view : CCoinsViewCache} (hok : view.Ok) (fClean : Bool) :
    TakesBack view fClean (E.undoOps nHeight tx vprevout)
      (E.disconnectTransaction nHeight tx (if tx.isCoinBase then none else some vprevout) fClean
        view) := by
  obtain ⟨s, hrun, hflag, hkeeps, hutxo⟩ := removeOutputs_spec (E.txid tx) tx.isCoinBase
    nHeight (n := 0) hok hfits.outputs fClean
  have hrestorable : ∀ kv ∈ (tx.spent.zip vprevout).reverse, Restorable kv.2 := by
    intro kv hkv
    exact hfits.coins kv.2 (of_mem_zip (mem_reverse.mp hkv)).2
  obtain ⟨res, view', hrestore, hres⟩ := restoreInputs_spec hkeeps.ok hrestorable s.2
  refine ⟨res, view', ?_, ?_⟩
  · unfold disconnectTransaction
    generalize removeOutputs (E.txid tx) tx.isCoinBase nHeight 0 tx.vout fClean view = removed at *
    obtain ⟨fClean', view₁⟩ := removed
    simp only at hflag
    subst hflag
    cases hcoinbase : tx.isCoinBase with
    | true =>
      rw [CTransaction.spent_of_isCoinBase hcoinbase] at hrestore
      exact hrestore
    | false =>
      have hlength := hfits.length
      rw [CTransaction.spent_of_not_isCoinBase hcoinbase] at hrestore hlength
      rw [length_map] at hlength
      simp only [Bool.false_eq_true, if_false, hlength, if_true]
      exact hrestore
  · rw [undoOps, undoRun_append]
    change Agrees view res view' ((undoRun (view.utxo, fClean) (removals (coinsFrom (E.txid tx)
      tx.isCoinBase nHeight 0 tx.vout))).bind _)
    rw [hrun, Option.bind_some]
    rw [hutxo] at hres
    exact hres.trans hkeeps

theorem disconnectTransactions_spec (nHeight : Nat) :
    ∀ {undos : List (CTransaction × CTxUndo)} {view : CCoinsViewCache}, view.Ok →
      (∀ u ∈ undos, UndoFits u.1 u.2) → ∀ fClean,
      TakesBack view fClean (undos.flatMap fun u => E.undoOps nHeight u.1 u.2)
        (E.disconnectTransactions nHeight
          (undos.map fun u => (u.1, if u.1.isCoinBase then none else some u.2)) fClean view)
  | [], view, hok, _, fClean => TakesBack.nil hok fClean
  | (tx, vprevout) :: rest, view, hok, hfits, fClean => by
      obtain ⟨res, view', hrun, hres⟩ := E.disconnectTransaction_spec nHeight
        (hfits (tx, vprevout) mem_cons_self) hok fClean
      unfold TakesBack
      rw [map_cons, disconnectTransactions, hrun, ok_bind, flatMap_cons, undoRun_append]
      cases hfirst : undoRun (view.utxo, fClean) (E.undoOps nHeight tx vprevout) with
      | none =>
        rw [hfirst] at hres
        have hres : res = .DISCONNECT_FAILED := hres
        subst hres
        exact ⟨_, _, rfl, rfl⟩
      | some s =>
        rw [hfirst] at hres
        obtain ⟨rfl, hkeeps, hutxo⟩ := hres
        have hflag : (resultOf s.2 == .DISCONNECT_OK) = s.2 := by cases s.2 <;> rfl
        obtain ⟨res', view'', hrest, hres'⟩ := disconnectTransactions_spec nHeight hkeeps.ok
          (forall_mem_cons.mp hfits).2 s.2
        rw [hutxo] at hres'
        refine ⟨res', view'', ?_, hres'.trans hkeeps⟩
        simp only [if_neg (resultOf_ne_failed _), hflag, hrest]

end NodeEnv

end VBitcoin
