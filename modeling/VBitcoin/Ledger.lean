import VBitcoin.Coins
import VBitcoin.Environment
import VBitcoin.WriteLog

/-!
**What blocks are for** — a transaction is a log of writes to the coin set, and a chain of
blocks stands for the set that its logs build from nothing (`utxoOf`).  `TxsConnect` is what
holds of the transactions of a connected block: each spends coins that were there, creates
coins where there were none, and pays the difference as its fee.
-/

namespace VBitcoin

open WriteLog

def CTransaction.spent (tx : CTransaction) : List COutPoint :=
  if tx.isCoinBase then [] else tx.vin.map CTxIn.prevout

variable {tx : CTransaction} {txout : CTxOut}

theorem CTransaction.spent_of_isCoinBase (h : tx.isCoinBase = true) :
    tx.spent = [] := by
  rw [CTransaction.spent, if_pos h]

theorem CTransaction.spent_of_not_isCoinBase (h : tx.isCoinBase = false) :
    tx.spent = tx.vin.map CTxIn.prevout := by
  rw [CTransaction.spent, h]
  rfl

theorem CTransaction.spent_sublist (tx : CTransaction) :
    tx.spent.Sublist (tx.vin.map CTxIn.prevout) := by
  unfold CTransaction.spent
  split
  · exact List.nil_sublist _
  · exact List.Sublist.refl _

def CTransaction.valueOut (tx : CTransaction) : Int := (tx.vout.map CTxOut.nValue).sum

/-- From output `n` on; an unspendable one makes no coin. -/
def coinsFrom (txid : UInt256) (fCoinBase : Bool) (nHeight : Nat) :
    Nat → List CTxOut → List (COutPoint × Coin)
  | _, [] => []
  | n, txout :: rest =>
    if isUnspendable txout.scriptPubKey then coinsFrom txid fCoinBase nHeight (n + 1) rest
    else (⟨txid, n⟩, ⟨txout, nHeight, fCoinBase⟩) :: coinsFrom txid fCoinBase nHeight (n + 1) rest

theorem coinsFrom_cons_of_unspendable
    (h : isUnspendable txout.scriptPubKey = true) (txid : UInt256) (fCoinBase : Bool)
    (nHeight n : Nat) (rest : List CTxOut) :
    coinsFrom txid fCoinBase nHeight n (txout :: rest) =
      coinsFrom txid fCoinBase nHeight (n + 1) rest := by
  rw [coinsFrom, if_pos h]

theorem coinsFrom_cons_of_spendable
    (h : isUnspendable txout.scriptPubKey = false) (txid : UInt256) (fCoinBase : Bool)
    (nHeight n : Nat) (rest : List CTxOut) :
    coinsFrom txid fCoinBase nHeight n (txout :: rest) =
      (⟨txid, n⟩, ⟨txout, nHeight, fCoinBase⟩) ::
        coinsFrom txid fCoinBase nHeight (n + 1) rest := by
  rw [coinsFrom, h]
  rfl

theorem mem_coinsFrom {txid : UInt256} {fCoinBase : Bool} {nHeight : Nat} {kv : COutPoint × Coin} :
    ∀ {vout : List CTxOut} {n : Nat}, kv ∈ coinsFrom txid fCoinBase nHeight n vout →
      kv.1.hash = txid ∧ n ≤ kv.1.n ∧ kv.1.n < n + vout.length ∧ kv.2.out ∈ vout ∧
        kv.2.nHeight = nHeight ∧ kv.2.fCoinBase = fCoinBase ∧
        isUnspendable kv.2.out.scriptPubKey = false
  | txout :: rest, n, h => by
      cases hscript : isUnspendable txout.scriptPubKey with
      | true =>
        rw [coinsFrom_cons_of_unspendable hscript] at h
        obtain ⟨hhash, hlow, hhigh, hout, hmeta⟩ := mem_coinsFrom h
        refine ⟨hhash, by omega, ?_, List.mem_cons_of_mem _ hout, hmeta⟩
        rw [List.length_cons]
        omega
      | false =>
        rw [coinsFrom_cons_of_spendable hscript, List.mem_cons] at h
        rcases h with rfl | h
        · exact ⟨rfl, Nat.le_refl n, by simp, List.mem_cons_self, rfl, rfl, hscript⟩
        · obtain ⟨hhash, hlow, hhigh, hout, hmeta⟩ := mem_coinsFrom h
          refine ⟨hhash, by omega, ?_, List.mem_cons_of_mem _ hout, hmeta⟩
          rw [List.length_cons]
          omega

theorem notMem_coinsFrom_succ (txid : UInt256) (fCoinBase : Bool) (nHeight n : Nat)
    (vout : List CTxOut) :
    (⟨txid, n⟩ : COutPoint) ∉ (coinsFrom txid fCoinBase nHeight (n + 1) vout).map Prod.fst := by
  intro h
  obtain ⟨kv, hkv, heq⟩ := List.mem_map.mp h
  have hlow := (mem_coinsFrom hkv).2.1
  rw [heq] at hlow
  exact Nat.not_succ_le_self n hlow

theorem nodup_coinsFrom (txid : UInt256) (fCoinBase : Bool) (nHeight : Nat) :
    ∀ (vout : List CTxOut) (n : Nat),
      ((coinsFrom txid fCoinBase nHeight n vout).map Prod.fst).Nodup
  | [], _ => List.nodup_nil
  | txout :: rest, n => by
      cases hscript : isUnspendable txout.scriptPubKey with
      | true =>
        rw [coinsFrom_cons_of_unspendable hscript]
        exact nodup_coinsFrom txid fCoinBase nHeight rest (n + 1)
      | false =>
        rw [coinsFrom_cons_of_spendable hscript]
        exact List.nodup_cons.mpr ⟨notMem_coinsFrom_succ txid fCoinBase nHeight n rest,
          nodup_coinsFrom txid fCoinBase nHeight rest (n + 1)⟩

namespace NodeEnv

variable (E : NodeEnv)

def created (nHeight : Nat) (tx : CTransaction) : List (COutPoint × Coin) :=
  coinsFrom (E.txid tx) tx.isCoinBase nHeight 0 tx.vout

def txLog (nHeight : Nat) (tx : CTransaction) : Log COutPoint Coin :=
  removes tx.spent ++ puts (E.created nHeight tx)

def blockLog (nHeight : Nat) (block : CBlock) : Log COutPoint Coin :=
  block.vtx.flatMap (E.txLog nHeight)

/-- **The coin set of a chain**, whose blocks are listed from the tip down. -/
def utxoOf : List CBlock → Utxo
  | [] => fun _ => none
  | block :: chain => replay (utxoOf chain) (E.blockLog chain.length block)

/-- `coins` are the coins that the transaction spends, `fee` is what it pays. -/
structure TxConnects (nHeight : Nat) (coins : Utxo) (tx : CTransaction) (vprevout : List Coin)
    (fee : Int) : Prop where
  held : Holds coins tx.spent vprevout
  free : ∀ k ∈ (E.created nHeight tx).map Prod.fst, replay coins (removes tx.spent) k = none
  inRange : ∀ coin ∈ vprevout, moneyRange coin.out.nValue = true
  balance : tx.isCoinBase = false →
    (vprevout.map fun coin => coin.out.nValue).sum = tx.valueOut + fee
  coinbase : tx.isCoinBase = true → fee = 0

/-- The coins that each transaction of a block spends, and all the fees. -/
inductive TxsConnect (nHeight : Nat) : Utxo → List CTransaction → List (List Coin) → Int → Prop
  | nil (coins : Utxo) : TxsConnect nHeight coins [] [] 0
  | cons {coins : Utxo} {tx : CTransaction} {rest : List CTransaction} {vprevout : List Coin}
      {vtxundo : List (List Coin)} {fee fees : Int} :
      E.TxConnects nHeight coins tx vprevout fee →
      TxsConnect nHeight (replay coins (E.txLog nHeight tx)) rest vtxundo fees →
      TxsConnect nHeight coins (tx :: rest) (vprevout :: vtxundo) (fee + fees)

end NodeEnv

end VBitcoin
