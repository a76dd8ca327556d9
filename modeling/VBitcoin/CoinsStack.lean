import VBitcoin.CoinsRefinement

/-!
**Any sequence of calls on a stack of coin caches behaves as one flat map** — calls on the
topmost cache, `Uncache` on any cache, putting a new cache on top, and flushing the topmost
one.  `LegalRun` says that each call meets the preconditions that the source asserts or
documents.
-/

namespace VBitcoin

open CCoinsViewCache

inductive CoinsOp where
  | addCoin (outpoint : COutPoint) (coin : Coin) (possible_overwrite : Bool)
  | spendCoin (outpoint : COutPoint)
  | getCoin (outpoint : COutPoint)
  | accessCoin (outpoint : COutPoint)
  | haveCoin (outpoint : COutPoint)
  | uncache (layer : Nat) (outpoint : COutPoint)
  | setBestBlock (hashBlock : UInt256)
  | getBestBlock
  | push
  | flush
  | flushAndDiscard

inductive CoinsAnswer where
  | done
  | found (coin : Option Coin)
  | coin (coin : Coin)
  | have (present : Bool)
  deriving DecidableEq, Repr

def CCoinsViewCache.step (c : CCoinsViewCache) : CoinsOp → Run (CoinsAnswer × CCoinsView)
  | .addCoin outpoint coin possible_overwrite => do
    let c ← c.addCoin outpoint coin possible_overwrite
    pure (.done, c.toView)
  -- the coin moved out; it stays the caller's empty coin when nothing is found
  | .spendCoin outpoint =>
    let (moved, c) := c.spendCoin outpoint
    pure (.coin (moved.getD Coin.empty), c.toView)
  | .getCoin outpoint => let (coin, c) := c.getCoin outpoint; pure (.found coin, c.toView)
  | .accessCoin outpoint => let (coin, c) := c.accessCoin outpoint; pure (.coin coin, c.toView)
  | .haveCoin outpoint => let (present, c) := c.haveCoin outpoint; pure (.have present, c.toView)
  | .uncache layer outpoint => pure (.done, c.toView.uncacheAt layer outpoint)
  | .setBestBlock hashBlock => pure (.done, (c.setBestBlock hashBlock).toView)
  | .getBestBlock => pure (.done, c.getBestBlock.2.toView)
  | .push => pure (.done, .cache 0 ∅ c.toView)
  | .flush => do
    let c ← c.flush
    pure (.done, c.toView)
  | .flushAndDiscard => do
    let c ← c.flush
    pure (.done, c.base)

def CCoinsView.step : CCoinsView → CoinsOp → Run (CoinsAnswer × CCoinsView)
  | .cache hashBlock cacheCoins base, op => CCoinsViewCache.step ⟨base, hashBlock, cacheCoins⟩ op
  | .db base, _ => pure (.done, .cache 0 ∅ (.db base))

def CCoinsView.run : CCoinsView → List CoinsOp → Run (List CoinsAnswer × CCoinsView)
  | v, [] => pure ([], v)
  | v, op :: ops => do
    let (answer, v) ← v.step op
    let (answers, v) ← v.run ops
    pure (answer :: answers, v)

/-! ### The flat map -/

def flatStep (coins : Utxo) : CoinsOp → CoinsAnswer × Utxo
  | .addCoin outpoint coin _ => (.done, coins.add outpoint coin)
  | .spendCoin outpoint => (.coin ((coins outpoint).getD Coin.empty), coins.spend outpoint)
  | .getCoin outpoint => (.found (coins outpoint), coins)
  | .accessCoin outpoint => (.coin ((coins outpoint).getD Coin.empty), coins)
  | .haveCoin outpoint => (.have (coins outpoint).isSome, coins)
  | _ => (.done, coins)

def flatRun (coins : Utxo) : List CoinsOp → List CoinsAnswer × Utxo
  | [] => ([], coins)
  | op :: ops =>
    let (answer, coins) := flatStep coins op
    let (answers, coins) := flatRun coins ops
    (answer :: answers, coins)

/-! ### When a call may be made -/

def CoinsOp.Legal : CoinsOp → CCoinsView → Prop
  | .push, _ => True
  | _, .db _ => False
  | .addCoin outpoint coin possible_overwrite, v =>
    coin.isSpent = false ∧ (possible_overwrite = false → v.utxo outpoint = none)
  | .flush, .cache hashBlock _ base => base.acceptsBestBlock hashBlock = true
  | .flushAndDiscard, .cache hashBlock _ base => base.acceptsBestBlock hashBlock = true
  | _, _ => True

def LegalRun : CCoinsView → List CoinsOp → Prop
  | _, [] => True
  | v, op :: ops => op.Legal v ∧ ∀ answer v', v.step op = .ok (answer, v') → LegalRun v' ops

/-! ### One call -/

theorem CCoinsView.getBestBlock_spec (v : CCoinsView) (hok : v.Ok) :
    v.getBestBlock.1 = v.bestBlock ∧ v.getBestBlock.2.Ok ∧ v.getBestBlock.2.utxo = v.utxo ∧
      v.getBestBlock.2.bestBlock = v.bestBlock := by
  induction v with
  | db base => exact ⟨rfl, trivial, rfl, rfl⟩
  | cache hashBlock cacheCoins base ih =>
    obtain ⟨hvalue, hbase, hutxo, hbest⟩ := ih hok.1
    rw [CCoinsView.getBestBlock, CCoinsView.bestBlock]
    by_cases hnull : hashBlock.isNull = true
    · simp only [hnull, if_true]
      refine ⟨hvalue, ⟨hbase, hutxo ▸ hok.2⟩, ?_, ?_⟩
      · funext o
        rw [utxo_cache, utxo_cache, hutxo]
      · simp only [CCoinsView.bestBlock, hvalue, hbest, ite_self]
    · simp only [hnull, if_false, Bool.false_eq_true]
      refine ⟨trivial, hok, trivial, ?_⟩
      simp [CCoinsView.bestBlock, hnull]

theorem getBestBlock_spec {c : CCoinsViewCache} (hok : c.Ok) :
    c.getBestBlock.1 = c.bestBlock ∧ c.getBestBlock.2.Ok ∧ c.getBestBlock.2.utxo = c.utxo ∧
      c.getBestBlock.2.bestBlock = c.bestBlock := by
  have h := c.toView.getBestBlock_spec ((c.toView_ok_iff).mpr hok)
  have hstep : c.toView.getBestBlock = (c.getBestBlock.1, c.getBestBlock.2.toView) := by
    rw [CCoinsViewCache.toView, CCoinsView.getBestBlock, CCoinsViewCache.getBestBlock]
    split <;> rfl
  rw [hstep] at h
  exact ⟨h.1, (toView_ok_iff _).mp h.2.1, h.2.2.1, h.2.2.2⟩

/-- **One legal call** returns, answers as the flat map and keeps the invariant. -/
theorem step_refines {v : CCoinsView} (hok : v.Ok) {op : CoinsOp} (hlegal : op.Legal v) :
    ∃ answer v', v.step op = .ok (answer, v') ∧ v'.Ok ∧
      flatStep v.utxo op = (answer, v'.utxo) := by
  cases v with
  | db base =>
    -- only a new cache can be put on the database
    cases op with
    | push => exact ⟨.done, _, rfl, ⟨trivial, CacheOk.empty _⟩, rfl⟩
    | _ => exact absurd hlegal id
  | cache hashBlock cacheCoins base =>
    let c : CCoinsViewCache := ⟨base, hashBlock, cacheCoins⟩
    have hc : c.Ok := ⟨hok.1, hok.2⟩
    cases op with
    | addCoin outpoint coin possible_overwrite =>
      obtain ⟨c', hrun, hkeeps, hutxo⟩ := addCoin_spec hc hlegal.1 fun h _ => hlegal.2 h
      refine ⟨.done, c'.toView, ?_, (c'.toView_ok_iff).mpr hkeeps.ok, ?_⟩
      · rw [CCoinsView.step, CCoinsViewCache.step, hrun, ok_bind]
        rfl
      · exact congrArg (Prod.mk CoinsAnswer.done) hutxo.symm
    | spendCoin outpoint =>
      obtain ⟨hmoved, -, hkeeps, hutxo⟩ := spendCoin_spec hc outpoint
      refine ⟨_, _, rfl, (toView_ok_iff _).mpr hkeeps.ok, ?_⟩
      exact Prod.ext (congrArg CoinsAnswer.coin hmoved.symm) hutxo.symm
    | getCoin outpoint =>
      obtain ⟨hvalue, hread⟩ := getCoin_spec hc outpoint
      refine ⟨_, _, rfl, (toView_ok_iff _).mpr hread.ok, ?_⟩
      exact Prod.ext (congrArg CoinsAnswer.found hvalue.symm) hread.utxo.symm
    | accessCoin outpoint =>
      obtain ⟨hvalue, hread⟩ := accessCoin_spec hc outpoint
      refine ⟨_, _, rfl, (toView_ok_iff _).mpr hread.ok, ?_⟩
      exact Prod.ext (congrArg CoinsAnswer.coin hvalue.symm) hread.utxo.symm
    | haveCoin outpoint =>
      obtain ⟨hvalue, hread⟩ := haveCoin_spec hc outpoint
      refine ⟨_, _, rfl, (toView_ok_iff _).mpr hread.ok, ?_⟩
      exact Prod.ext (congrArg CoinsAnswer.have hvalue.symm) hread.utxo.symm
    | uncache layer outpoint =>
      obtain ⟨hok', hutxo⟩ := uncacheAt_spec c.toView layer outpoint hok
      exact ⟨_, _, rfl, hok', congrArg (Prod.mk CoinsAnswer.done) hutxo.symm⟩
    | setBestBlock hash => exact ⟨_, _, rfl, hok, rfl⟩
    | getBestBlock =>
      obtain ⟨-, hok', hutxo, -⟩ := getBestBlock_spec hc
      exact ⟨_, _, rfl, (toView_ok_iff _).mpr hok',
        congrArg (Prod.mk CoinsAnswer.done) hutxo.symm⟩
    | push => exact ⟨_, _, rfl, ⟨hok, CacheOk.empty _⟩, rfl⟩
    | flush =>
      obtain ⟨c', hrun, hok', -, -, hutxo, -⟩ := flush_spec hc hlegal
      refine ⟨.done, c'.toView, ?_, (c'.toView_ok_iff).mpr hok', ?_⟩
      · rw [CCoinsView.step, CCoinsViewCache.step, hrun, ok_bind]
        rfl
      · exact congrArg (Prod.mk CoinsAnswer.done) hutxo.symm
    | flushAndDiscard =>
      obtain ⟨c', hrun, hok', -, -, -, hutxo, -⟩ := flush_spec hc hlegal
      refine ⟨.done, c'.base, ?_, hok'.base_ok, ?_⟩
      · rw [CCoinsView.step, CCoinsViewCache.step, hrun, ok_bind]
        rfl
      · exact congrArg (Prod.mk CoinsAnswer.done) hutxo.symm

/-! ### Whole runs -/

theorem run_refines : ∀ (ops : List CoinsOp) {v : CCoinsView}, v.Ok → LegalRun v ops →
    ∃ answers v', v.run ops = .ok (answers, v') ∧ v'.Ok ∧
      flatRun v.utxo ops = (answers, v'.utxo)
  | [], v, hok, _ => ⟨[], v, rfl, hok, rfl⟩
  | op :: ops, v, hok, hlegal => by
      obtain ⟨answer, v₁, hstep, hok₁, hflat⟩ := step_refines hok hlegal.1
      obtain ⟨answers, v', hrun, hok', hflats⟩ := run_refines ops hok₁ (hlegal.2 answer v₁ hstep)
      refine ⟨answer :: answers, v', ?_, hok', ?_⟩
      · simp only [CCoinsView.run, hstep, ok_bind, hrun]
        rfl
      · simp only [flatRun, hflat, hflats]

/-! ### Flushing everything -/

def CCoinsView.depth : CCoinsView → Nat
  | .db _ => 0
  | .cache _ _ base => base.depth + 1

def CCoinsView.bottom : CCoinsView → CCoinsViewDB
  | .db base => base
  | .cache _ _ base => base.bottom

/-- The database accepts the topmost best block, which each flush hands down. -/
def CCoinsView.Flushable : CCoinsView → Prop
  | .db _ => True
  | .cache hashBlock _ base => (CCoinsView.db base.bottom).acceptsBestBlock hashBlock = true

theorem batchWrite_cache {hash hashBlock : UInt256} {cacheCoins mapCoins : CCoinsMap}
    {base v : CCoinsView}
    (h : (CCoinsView.cache hash cacheCoins base).batchWrite mapCoins hashBlock = .ok v) :
    ∃ m, v = .cache hashBlock m base := by
  rw [CCoinsView.batchWrite, bind_eq_ok] at h
  obtain ⟨m, -, h⟩ := h
  exact ⟨m, (pure_eq_ok_iff.mp h).symm⟩

/-- **Flushing all caches** leaves the database with exactly the coins of the stack. -/
theorem flushAll_spec : ∀ (n : Nat) {v : CCoinsView}, v.depth = n → v.Ok → v.Flushable →
    ∃ answers db, v.run (List.replicate n .flushAndDiscard) = .ok (answers, .db db) ∧
      db.coins = v.utxo
  | 0, .db base, _, _, _ => ⟨[], base, rfl, rfl⟩
  | n + 1, .cache hashBlock cacheCoins base, hdepth, hok, hflush => by
      have haccepts : base.acceptsBestBlock hashBlock = true := by
        cases base with
        | db base => exact hflush
        | cache _ _ _ => rfl
      obtain ⟨v₁, hrun₁, hok₁, hutxo₁, -⟩ := batchWrite_spec hok.1 hok.2 haccepts
      -- the base that was written to is a stack of the same shape, one cache less
      have hshape : v₁.depth = n ∧ v₁.Flushable := by
        rw [CCoinsView.depth, Nat.add_right_cancel_iff] at hdepth
        cases base with
        | db base =>
          rw [CCoinsView.batchWrite, bind_eq_ok] at hrun₁
          obtain ⟨db, -, hrun₁⟩ := hrun₁
          obtain rfl := pure_eq_ok_iff.mp hrun₁
          exact ⟨hdepth, trivial⟩
        | cache hash m base =>
          obtain ⟨m', rfl⟩ := batchWrite_cache hrun₁
          exact ⟨hdepth, hflush⟩
      obtain ⟨answers, db, hrun, hcoins⟩ := flushAll_spec n hshape.1 hok₁ hshape.2
      refine ⟨.done :: answers, db, ?_, hcoins.trans hutxo₁⟩
      rw [List.replicate_succ, CCoinsView.run, CCoinsView.step, CCoinsViewCache.step,
        CCoinsViewCache.flush, hrun₁]
      simp only [ok_bind, pure, Except.pure, hrun]

def newStack (db : CCoinsViewDB) : Nat → CCoinsView
  | 0 => .db db
  | n + 1 => .cache 0 ∅ (newStack db n)

theorem newStack_ok (db : CCoinsViewDB) : ∀ n, (newStack db n).Ok
  | 0 => trivial
  | n + 1 => ⟨newStack_ok db n, CacheOk.empty _⟩

theorem newStack_utxo (db : CCoinsViewDB) : ∀ n, (newStack db n).utxo = db.coins
  | 0 => rfl
  | n + 1 => by
      funext o
      rw [newStack, utxo_cache, newStack_utxo db n]
      rfl

/-- **A stack of coin caches refines one flat map.** Every legal call returns (so no flush finds a
    misapplied FRESH flag) and answers as the flat map, which flushing all leaves in the database.
    -/
theorem coinsViewCache_refines_flat_map (db : CCoinsViewDB) (n : Nat) (ops : List CoinsOp)
    (hlegal : LegalRun (newStack db n) ops) :
    ∃ answers v, (newStack db n).run ops = .ok (answers, v) ∧
      flatRun db.coins ops = (answers, v.utxo) ∧
      (v.Flushable → ∃ flushed db',
        v.run (List.replicate v.depth .flushAndDiscard) = .ok (flushed, .db db') ∧
          db'.coins = (flatRun db.coins ops).2) := by
  obtain ⟨answers, v, hrun, hok, hflat⟩ := run_refines ops (newStack_ok db n) hlegal
  rw [newStack_utxo] at hflat
  refine ⟨answers, v, hrun, hflat, fun hflush => ?_⟩
  obtain ⟨flushed, db', hflushed, hcoins⟩ := flushAll_spec v.depth rfl hok hflush
  exact ⟨flushed, db', hflushed, by rw [hcoins, hflat]⟩

def spendInNewCache : List CoinsOp :=
  [.addCoin ⟨7, 0⟩ ⟨⟨50, [OP_1]⟩, 3, false⟩ false, .setBestBlock 9, .flush, .haveCoin ⟨7, 0⟩,
    .uncache 0 ⟨7, 0⟩, .push, .spendCoin ⟨7, 0⟩, .setBestBlock 9, .flushAndDiscard,
    .accessCoin ⟨7, 0⟩]

theorem spendInNewCache_legal : LegalRun (newStack CCoinsViewDB.new 2) spendInNewCache := by
  refine ⟨⟨rfl, fun _ => rfl⟩, ?_⟩
  rintro _ _ ⟨⟩
  refine ⟨trivial, ?_⟩
  rintro _ _ ⟨⟩
  refine ⟨rfl, ?_⟩
  rintro _ _ ⟨⟩
  refine ⟨trivial, ?_⟩
  rintro _ _ ⟨⟩
  refine ⟨trivial, ?_⟩
  rintro _ _ ⟨⟩
  refine ⟨trivial, ?_⟩
  rintro _ _ ⟨⟩
  refine ⟨trivial, ?_⟩
  rintro _ _ ⟨⟩
  refine ⟨trivial, ?_⟩
  rintro _ _ ⟨⟩
  refine ⟨rfl, ?_⟩
  rintro _ _ ⟨⟩
  refine ⟨trivial, ?_⟩
  rintro _ _ ⟨⟩
  trivial

theorem spendInNewCache_refines :
    LegalRun (newStack CCoinsViewDB.new 2) spendInNewCache ∧
      ∃ answers v, (newStack CCoinsViewDB.new 2).run spendInNewCache = .ok (answers, v) ∧
        flatRun CCoinsViewDB.new.coins spendInNewCache = (answers, v.utxo) ∧
        (v.Flushable → ∃ flushed db',
          v.run (List.replicate v.depth .flushAndDiscard) = .ok (flushed, .db db') ∧
            db'.coins = (flatRun CCoinsViewDB.new.coins spendInNewCache).2) :=
  ⟨spendInNewCache_legal, coinsViewCache_refines_flat_map _ _ _ spendInNewCache_legal⟩

end VBitcoin
