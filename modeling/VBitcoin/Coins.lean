import VBitcoin.Script
import VBitcoin.WriteBackCell

/-!
**The coins views** — `coins.cpp` and the coin database of `txdb.cpp`.  A `CCoinsView` is the
database or a cache over another view.  Reading fills the caches, so every read returns the
view it leaves behind.  `CCoinsView.utxo` is the abstract side: one map from outpoints to
coins.
-/

namespace VBitcoin

abbrev Utxo := COutPoint → Option Coin

/-! ### The database -/

/-- Unspent coins only; a null `DB_BEST_BLOCK` is a missing record. -/
structure CCoinsViewDB where
  coins : Utxo
  bestBlock : UInt256
  headBlocks : List UInt256
  coins_unspent : ∀ outpoint coin, coins outpoint = some coin → coin.isSpent = false

def CCoinsViewDB.new : CCoinsViewDB := ⟨fun _ => none, 0, [], fun _ _ h => by cases h⟩

variable (db : CCoinsViewDB)

def CCoinsViewDB.writeCoin (outpoint : COutPoint) (coin : Coin) : CCoinsViewDB where
  coins := Function.update db.coins outpoint coin.unspent
  bestBlock := db.bestBlock
  headBlocks := db.headBlocks
  coins_unspent := by
    intro o c h
    by_cases ho : o = outpoint
    · subst ho
      rw [Function.update_self, Coin.unspent_eq_some] at h
      rw [h.2]
      exact h.1
    · rw [Function.update_of_ne ho] at h
      exact db.coins_unspent o c h

/-! ### Cache entries -/

/-- `CCoinsCacheEntry`; the two flag bits are `dirty` and `fresh`. -/
structure CCoinsCacheEntry where
  coin : Coin
  dirty : Bool := false
  fresh : Bool := false
  deriving DecidableEq, Repr

abbrev CCoinsMap := AList (fun _ : COutPoint => CCoinsCacheEntry)

inductive CCoinsView where
  | db (base : CCoinsViewDB)
  | cache (hashBlock : UInt256) (cacheCoins : CCoinsMap) (base : CCoinsView)

/-- A null `hashBlock` was not set or read yet. -/
structure CCoinsViewCache where
  base : CCoinsView
  hashBlock : UInt256 := 0
  cacheCoins : CCoinsMap := ∅

def CCoinsViewCache.toView (c : CCoinsViewCache) : CCoinsView :=
  .cache c.hashBlock c.cacheCoins c.base

/-! ### Reading coins -/

/-- `FetchCoin`; the base is asked only when the cache has no entry. -/
def CCoinsViewCache.fetchFrom (c : CCoinsViewCache) (outpoint : COutPoint)
    (fromBase : Option Coin × CCoinsView) : Option CCoinsCacheEntry × CCoinsViewCache :=
  match c.cacheCoins.lookup outpoint with
  | some entry => (some entry, c)
  | none =>
    match fromBase with
    | (none, base) => (none, { c with base })
    | (some tmp, base) =>
      let entry : CCoinsCacheEntry := { coin := tmp, dirty := false, fresh := tmp.isSpent }
      (some entry, { c with base, cacheCoins := c.cacheCoins.insert outpoint entry })

def CCoinsView.getCoin : CCoinsView → COutPoint → Option Coin × CCoinsView
  | .db base, outpoint => (base.coins outpoint, .db base)
  | .cache hashBlock cacheCoins base, outpoint =>
    let (it, c) := CCoinsViewCache.fetchFrom ⟨base, hashBlock, cacheCoins⟩ outpoint
      (base.getCoin outpoint)
    (it.bind fun entry => entry.coin.unspent, c.toView)

namespace CCoinsViewCache

variable (c : CCoinsViewCache) (outpoint : COutPoint)

def fetchCoin : Option CCoinsCacheEntry × CCoinsViewCache :=
  c.fetchFrom outpoint (c.base.getCoin outpoint)

def getCoin : Option Coin × CCoinsViewCache :=
  let (it, c) := c.fetchCoin outpoint
  (it.bind fun entry => entry.coin.unspent, c)

def accessCoin : Coin × CCoinsViewCache :=
  let (it, c) := c.fetchCoin outpoint
  ((it.map CCoinsCacheEntry.coin).getD Coin.empty, c)

def haveCoin : Bool × CCoinsViewCache :=
  let (it, c) := c.fetchCoin outpoint
  (it.any fun entry => !entry.coin.isSpent, c)

/-! ### Adding, spending, uncaching -/

/-- The entry `AddCoin` stores over the one it found, or over a new empty one. -/
def addedEntry (found : Option CCoinsCacheEntry) (coin : Coin) (possible_overwrite : Bool) :
    CCoinsCacheEntry :=
  let it := found.getD { coin := Coin.empty }
  { coin := coin, dirty := true, fresh := it.fresh || (!possible_overwrite && !it.dirty) }

def addCoin (coin : Coin) (possible_overwrite : Bool) : Run CCoinsViewCache := do
  require (!coin.isSpent) (.assertion "!coin.IsSpent()")
  if isUnspendable coin.out.scriptPubKey then
    pure c
  else
    let it := c.cacheCoins.lookup outpoint
    require (possible_overwrite || it.all fun entry => entry.coin.isSpent)
      (.exception "Adding new coin that replaces non-pruned entry")
    pure { c with
      cacheCoins := c.cacheCoins.insert outpoint (addedEntry it coin possible_overwrite) }

/-- `SpendCoin`: whether an entry was found, and the coin moved out of it. -/
def spendCoin : Option Coin × CCoinsViewCache :=
  match c.fetchCoin outpoint with
  | (none, c) => (none, c)
  | (some entry, c) =>
    if entry.fresh then
      (some entry.coin, { c with cacheCoins := c.cacheCoins.erase outpoint })
    else
      (some entry.coin, { c with
        cacheCoins := c.cacheCoins.insert outpoint
          { coin := Coin.empty, dirty := true, fresh := entry.fresh } })

def uncache : CCoinsViewCache :=
  match c.cacheCoins.lookup outpoint with
  | some entry =>
    if !entry.dirty && !entry.fresh then
      { c with cacheCoins := c.cacheCoins.erase outpoint }
    else c
  | none => c

def setBestBlock (hashBlock : UInt256) : CCoinsViewCache :=
  { c with hashBlock }

end CCoinsViewCache

/-- `GetBestBlock`: a null hash is filled from the base. -/
def CCoinsView.getBestBlock : CCoinsView → UInt256 × CCoinsView
  | .db base => (base.bestBlock, .db base)
  | .cache hashBlock cacheCoins base =>
    if hashBlock.isNull then
      let (best, base) := base.getBestBlock
      (best, .cache best cacheCoins base)
    else (hashBlock, .cache hashBlock cacheCoins base)

def CCoinsViewCache.getBestBlock (c : CCoinsViewCache) : UInt256 × CCoinsViewCache :=
  if c.hashBlock.isNull then
    let (best, base) := c.base.getBestBlock
    (best, { c with hashBlock := best, base })
  else (c.hashBlock, c)

/-! ### Writing a cache to its base -/

/-- One turn of the loop of `CCoinsViewCache::BatchWrite`. -/
def batchWriteEntry (cacheCoins : CCoinsMap) (outpoint : COutPoint) (it : CCoinsCacheEntry) :
    Run CCoinsMap :=
  if it.dirty then
    match cacheCoins.lookup outpoint with
    | none =>
      if it.fresh && it.coin.isSpent then .ok cacheCoins
      else .ok (cacheCoins.insert outpoint { coin := it.coin, dirty := true, fresh := it.fresh })
    | some itUs =>
      if it.fresh && !itUs.coin.isSpent then
        .error (.exception ("FRESH flag misapplied to cache entry for base transaction " ++
          "with spendable outputs"))
      else if itUs.fresh && it.coin.isSpent then .ok (cacheCoins.erase outpoint)
      else .ok (cacheCoins.insert outpoint { coin := it.coin, dirty := true, fresh := itUs.fresh })
  else .ok cacheCoins

/-- The loop of `CCoinsViewDB::BatchWrite` over the dirty entries. -/
def CCoinsViewDB.writeEntries (mapCoins : List (Sigma fun _ : COutPoint => CCoinsCacheEntry)) :
    CCoinsViewDB :=
  mapCoins.foldl (fun db it => if it.2.dirty then db.writeCoin it.1 it.2.coin else db) db

/-- `CCoinsViewDB::BatchWrite`, with every batch reaching the disk. -/
def CCoinsViewDB.batchWrite (mapCoins : CCoinsMap) (hashBlock : UInt256) : Run CCoinsViewDB := do
  require (!hashBlock.isNull) (.assertion "!hashBlock.IsNull()")
  -- with no best block the database may be in the middle of replaying
  require (!(db.bestBlock.isNull && db.headBlocks.length == 2) ||
      db.headBlocks.head? == some hashBlock) (.assertion "old_heads[0] == hashBlock")
  pure { db.writeEntries mapCoins.entries with bestBlock := hashBlock, headBlocks := [] }

def CCoinsView.batchWrite (view : CCoinsView) (mapCoins : CCoinsMap) (hashBlock : UInt256) :
    Run CCoinsView :=
  match view with
  | .db base => do
    let base ← base.batchWrite mapCoins hashBlock
    pure (.db base)
  | .cache _ cacheCoins base => do
    let cacheCoins ← mapCoins.entries.foldlM (fun m it => batchWriteEntry m it.1 it.2) cacheCoins
    pure (.cache hashBlock cacheCoins base)

def CCoinsViewCache.flush (c : CCoinsViewCache) : Run CCoinsViewCache := do
  let base ← c.base.batchWrite c.cacheCoins c.hashBlock
  pure { c with base, cacheCoins := ∅ }

/-! ### The abstract coin set -/

def Utxo.add (coins : Utxo) (outpoint : COutPoint) (coin : Coin) : Utxo :=
  if isUnspendable coin.out.scriptPubKey then coins
  else Function.update coins outpoint (some coin)

def Utxo.spend (coins : Utxo) (outpoint : COutPoint) : Utxo :=
  Function.update coins outpoint none

/-- **The coin set a view stands for.** -/
def CCoinsView.utxo : CCoinsView → Utxo
  | .db base => base.coins
  | .cache _ cacheCoins base => fun outpoint =>
    match cacheCoins.lookup outpoint with
    | some entry => entry.coin.unspent
    | none => base.utxo outpoint

def CCoinsViewCache.utxo (c : CCoinsViewCache) : Utxo := c.toView.utxo

/-- The best block a view stands for: the topmost one that is set. -/
def CCoinsView.bestBlock : CCoinsView → UInt256
  | .db base => base.bestBlock
  | .cache hashBlock _ base => if hashBlock.isNull then base.bestBlock else hashBlock

def CCoinsViewCache.bestBlock (c : CCoinsViewCache) : UInt256 := c.toView.bestBlock

end VBitcoin
