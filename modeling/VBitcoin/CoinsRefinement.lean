import VBitcoin.Coins

/-!
**A stack of coin caches is one map of coins** — in every cache the flags keep their promise
about the view below, and a spent entry is the cleared coin (`CCoinsView.Ok`).  Each operation
gets one lemma: what it answers, what coin set it leaves, and that it keeps the invariant.
-/

namespace VBitcoin

open WriteBack CCoinsCacheEntry CCoinsViewCache

/-! ### Cells of a cache -/

variable (entry : CCoinsCacheEntry)

/-- The key `outpoint` of a cache, as a write-back cell. -/
def CCoinsCacheEntry.toEntry : Entry Coin :=
  ⟨entry.coin.unspent, entry.dirty, entry.fresh⟩

@[simp] theorem CCoinsCacheEntry.toEntry_dirty :
    entry.toEntry.dirty = entry.dirty := rfl

@[simp] theorem CCoinsCacheEntry.toEntry_fresh :
    entry.toEntry.fresh = entry.fresh := rfl

@[simp] theorem CCoinsCacheEntry.toEntry_isNone :
    entry.toEntry.value.isNone = entry.coin.isSpent := by
  cases h : entry.coin.isSpent <;> simp [CCoinsCacheEntry.toEntry, Coin.unspent, h]

@[simp] theorem CCoinsCacheEntry.toEntry_isSome :
    entry.toEntry.value.isSome = !entry.coin.isSpent := by
  cases h : entry.coin.isSpent <;> simp [CCoinsCacheEntry.toEntry, Coin.unspent, h]

def cellOf (cacheCoins : CCoinsMap) (outpoint : COutPoint) : Cell Coin :=
  (cacheCoins.lookup outpoint).map CCoinsCacheEntry.toEntry

variable {cacheCoins : CCoinsMap} {outpoint : COutPoint} {below : Utxo} {coin : Coin}
  {a b c c' : CCoinsViewCache} {it : Option CCoinsCacheEntry}

theorem cellOf_of_lookup
    {found : Option CCoinsCacheEntry} (h : cacheCoins.lookup outpoint = found) :
    cellOf cacheCoins outpoint = found.map CCoinsCacheEntry.toEntry := by
  rw [cellOf, h]

theorem cellOf_insert (cacheCoins : CCoinsMap) (outpoint o : COutPoint) (entry : CCoinsCacheEntry) :
    cellOf (cacheCoins.insert outpoint entry) o =
      if o = outpoint then some entry.toEntry else cellOf cacheCoins o := by
  by_cases ho : o = outpoint
  · subst ho
    simp [cellOf]
  · simp [cellOf, ho]

theorem cellOf_erase (cacheCoins : CCoinsMap) (outpoint o : COutPoint) :
    cellOf (cacheCoins.erase outpoint) o =
      if o = outpoint then none else cellOf cacheCoins o := by
  by_cases ho : o = outpoint
  · subst ho
    simp [cellOf]
  · simp [cellOf, ho]

theorem utxo_cache (hashBlock : UInt256) (cacheCoins : CCoinsMap) (base : CCoinsView)
    (outpoint : COutPoint) :
    (CCoinsView.cache hashBlock cacheCoins base).utxo outpoint =
      view (cellOf cacheCoins outpoint) (base.utxo outpoint) := by
  simp only [CCoinsView.utxo, cellOf]
  cases cacheCoins.lookup outpoint <;> rfl

theorem CCoinsViewCache.utxo_apply (c : CCoinsViewCache) (outpoint : COutPoint) :
    c.utxo outpoint = view (cellOf c.cacheCoins outpoint) (c.base.utxo outpoint) :=
  utxo_cache c.hashBlock c.cacheCoins c.base outpoint

/-! ### The invariant -/

/-- The flags of a cache are right about the coins below it. -/
structure CacheOk (cacheCoins : CCoinsMap) (below : Utxo) : Prop where
  sound : ∀ outpoint, Sound (below outpoint) (cellOf cacheCoins outpoint)
  cleared : ∀ outpoint entry, cacheCoins.lookup outpoint = some entry →
    entry.coin.isSpent = true → entry.coin = Coin.empty

def CCoinsView.Ok : CCoinsView → Prop
  | .db _ => True
  | .cache _ cacheCoins base => base.Ok ∧ CacheOk cacheCoins base.utxo

structure CCoinsViewCache.Ok (c : CCoinsViewCache) : Prop where
  base_ok : c.base.Ok
  cache_ok : CacheOk c.cacheCoins c.base.utxo

theorem CCoinsViewCache.toView_ok_iff (c : CCoinsViewCache) : c.toView.Ok ↔ c.Ok :=
  ⟨fun h => ⟨h.1, h.2⟩, fun h => ⟨h.base_ok, h.cache_ok⟩⟩

theorem CacheOk.empty (below : Utxo) : CacheOk ∅ below :=
  ⟨fun _ => sound_none _, fun _ _ h => by cases h⟩

theorem CacheOk.insert (h : CacheOk cacheCoins below) {entry : CCoinsCacheEntry}
    (hsound : Sound (below outpoint) (some entry.toEntry))
    (hcleared : entry.coin.isSpent = true → entry.coin = Coin.empty) :
    CacheOk (cacheCoins.insert outpoint entry) below := by
  refine ⟨fun o => ?_, fun o e he hspent => ?_⟩
  · rw [cellOf_insert]
    split
    · rename_i ho
      rw [ho]
      exact hsound
    · exact h.sound o
  · by_cases ho : o = outpoint
    · subst ho
      rw [AList.lookup_insert, Option.some.injEq] at he
      rw [← he] at hspent ⊢
      exact hcleared hspent
    · rw [AList.lookup_insert_ne ho] at he
      exact h.cleared o e he hspent

theorem CacheOk.erase (h : CacheOk cacheCoins below)
    (outpoint : COutPoint) : CacheOk (cacheCoins.erase outpoint) below := by
  refine ⟨fun o => ?_, fun o e he hspent => ?_⟩
  · rw [cellOf_erase]
    split
    · exact sound_none _
    · exact h.sound o
  · by_cases ho : o = outpoint
    · subst ho
      rw [AList.lookup_erase] at he
      cases he
    · rw [AList.lookup_erase_ne ho] at he
      exact h.cleared o e he hspent

theorem CCoinsView.utxo_unspent (v : CCoinsView)
    (h : v.utxo outpoint = some coin) : coin.isSpent = false := by
  induction v with
  | db base => exact base.coins_unspent outpoint coin h
  | cache hashBlock cacheCoins base ih =>
    simp only [CCoinsView.utxo] at h
    cases hlookup : cacheCoins.lookup outpoint with
    | none =>
      rw [hlookup] at h
      exact ih h
    | some entry =>
      rw [hlookup] at h
      obtain ⟨hunspent, rfl⟩ := Coin.unspent_eq_some.mp h
      exact hunspent

theorem CCoinsViewCache.utxo_unspent (c : CCoinsViewCache)
    (h : c.utxo outpoint = some coin) : coin.isSpent = false :=
  c.toView.utxo_unspent h

/-! ### What an operation on a cache may do to the rest of the stack -/

/-- The coins below stay, and the entries over them. -/
structure Extends (c c' : CCoinsViewCache) : Prop where
  base_utxo : c'.base.utxo = c.base.utxo
  base_bestBlock : c'.base.bestBlock = c.base.bestBlock
  base_db : ∀ db, c.base = .db db → c'.base = .db db
  stays : ∀ outpoint, c.base.utxo outpoint ≠ none →
    outpoint ∈ c.cacheCoins → outpoint ∈ c'.cacheCoins

theorem Extends.refl (c : CCoinsViewCache) : Extends c c :=
  ⟨rfl, rfl, fun _ h => h, fun _ _ h => h⟩

theorem Extends.trans (hab : Extends a b) (hbc : Extends b c) : Extends a c := by
  refine ⟨hbc.base_utxo.trans hab.base_utxo, hbc.base_bestBlock.trans hab.base_bestBlock,
    fun db h => hbc.base_db db (hab.base_db db h), ?_⟩
  intro outpoint hbelow hmem
  exact hbc.stays outpoint (by rwa [hab.base_utxo]) (hab.stays outpoint hbelow hmem)

/-- A coin at the outpoint, if there is one, is in the topmost cache. -/
def SeenOnTop (c : CCoinsViewCache) (outpoint : COutPoint) : Prop :=
  c.utxo outpoint ≠ none → outpoint ∈ c.cacheCoins

theorem utxo_of_notMem (h : outpoint ∉ c.cacheCoins) : c.utxo outpoint = c.base.utxo outpoint := by
  rw [c.utxo_apply, cellOf_of_lookup (AList.lookup_eq_none.mpr h), Option.map_none, view_none]

/-- What the topmost cache shows at one time it shows from then on. -/
theorem SeenOnTop.of_extends
    (hseen : SeenOnTop c outpoint) (h : Extends c c') : SeenOnTop c' outpoint := by
  intro hpresent
  by_contra hmem
  have hbelow : c.base.utxo outpoint ≠ none := by
    rwa [utxo_of_notMem hmem, h.base_utxo] at hpresent
  refine hmem (h.stays outpoint hbelow ?_)
  by_contra hmem'
  rw [← utxo_of_notMem hmem'] at hbelow
  exact hmem' (hseen hbelow)

/-! ### Reading -/

/-- `it` is the entry that is pointed at, `c'` the cache after it. -/
structure FetchSpec (c : CCoinsViewCache) (outpoint : COutPoint) (it : Option CCoinsCacheEntry)
    (c' : CCoinsViewCache) : Prop where
  ok : c'.Ok
  grows : Extends c c'
  hashBlock : c'.hashBlock = c.hashBlock
  utxo : c'.utxo = c.utxo
  found : c'.cacheCoins.lookup outpoint = it
  absent : it = none → c.base.utxo outpoint = none
  value : (it.bind fun entry => entry.coin.unspent) = c.utxo outpoint

theorem FetchSpec.accessed (h : FetchSpec c outpoint it c') :
    (it.map CCoinsCacheEntry.coin).getD Coin.empty = (c.utxo outpoint).getD Coin.empty := by
  rw [← h.value]
  cases it with
  | none => rfl
  | some entry =>
    by_cases hspent : entry.coin.isSpent = true
    · simp [Coin.unspent, h.ok.cache_ok.cleared outpoint entry h.found hspent]
    · simp [Coin.unspent, hspent]

theorem FetchSpec.have_iff (h : FetchSpec c outpoint it c') :
    (it.any fun entry => !entry.coin.isSpent) = (c.utxo outpoint).isSome := by
  rw [← h.value]
  cases it with
  | none => rfl
  | some entry => cases hspent : entry.coin.isSpent <;> simp [Coin.unspent, hspent]

theorem fetchFrom_spec (hok : c.Ok) (outpoint : COutPoint)
    {fromBase : Option Coin × CCoinsView} (hvalue : fromBase.1 = c.base.utxo outpoint)
    (hutxo : fromBase.2.utxo = c.base.utxo) (hbest : fromBase.2.bestBlock = c.base.bestBlock)
    (hdb : ∀ db, c.base = .db db → fromBase.2 = .db db) (hbase : fromBase.2.Ok) :
    FetchSpec c outpoint (c.fetchFrom outpoint fromBase).1 (c.fetchFrom outpoint fromBase).2 := by
  obtain ⟨value, base⟩ := fromBase
  simp only at hvalue hutxo hbest hdb hbase
  cases hlookup : c.cacheCoins.lookup outpoint with
  | some entry =>
    have hfetch : c.fetchFrom outpoint (value, base) = (some entry, c) := by
      simp only [CCoinsViewCache.fetchFrom, hlookup]
    rw [hfetch]
    refine ⟨hok, Extends.refl c, rfl, rfl, hlookup, fun h => (by cases h), ?_⟩
    rw [c.utxo_apply, cellOf_of_lookup hlookup]
    rfl
  | none =>
    have hbelow : c.utxo outpoint = c.base.utxo outpoint := by
      rw [c.utxo_apply, cellOf_of_lookup hlookup, Option.map_none, view_none]
    cases value with
    | none =>
      have hfetch : c.fetchFrom outpoint (none, base) = (none, { c with base }) := by
        simp only [CCoinsViewCache.fetchFrom, hlookup]
      rw [hfetch]
      refine ⟨⟨hbase, hutxo ▸ hok.cache_ok⟩, ⟨hutxo, hbest, hdb, fun _ _ h => h⟩, rfl, ?_, hlookup,
        fun _ => hvalue.symm, ?_⟩
      · funext o
        rw [utxo_apply, c.utxo_apply, hutxo]
      · rw [hbelow, ← hvalue]
        rfl
    | some tmp =>
      have hunspent : tmp.isSpent = false := c.base.utxo_unspent hvalue.symm
      have hfetch : c.fetchFrom outpoint (some tmp, base) =
          (some { coin := tmp, dirty := false, fresh := false },
            { c with
              base
              cacheCoins := c.cacheCoins.insert outpoint
                { coin := tmp, dirty := false, fresh := false } }) := by
        simp only [CCoinsViewCache.fetchFrom, hlookup, hunspent]
      have htmp : tmp.unspent = c.base.utxo outpoint := by
        rw [Coin.unspent_of_not_isSpent hunspent, hvalue]
      rw [hfetch]
      refine ⟨⟨hbase, ?_⟩, ⟨hutxo, hbest, hdb, ?_⟩, rfl, ?_, AList.lookup_insert _,
        fun h => (by cases h), ?_⟩
      · rw [show (CCoinsViewCache.base { c with base }) = base from rfl, hutxo]
        refine hok.cache_ok.insert (sound_some.mpr ⟨fun h => (by cases h), fun _ => htmp⟩) ?_
        intro hspent
        rw [hunspent] at hspent
        cases hspent
      · intro o _ hmem
        exact (AList.mem_insert _).mpr (Or.inr hmem)
      · funext o
        rw [utxo_apply, c.utxo_apply, cellOf_insert, hutxo]
        split
        · rename_i ho
          rw [ho, cellOf_of_lookup hlookup]
          exact htmp
        · rfl
      · rw [hbelow]
        exact htmp

/-- **`GetCoin`** answers from the coin set and changes nothing, at every depth. -/
theorem CCoinsView.getCoin_spec (v : CCoinsView) (outpoint : COutPoint) (hok : v.Ok) :
    (v.getCoin outpoint).1 = v.utxo outpoint ∧ (v.getCoin outpoint).2.utxo = v.utxo ∧
      (v.getCoin outpoint).2.bestBlock = v.bestBlock ∧
      (∀ db, v = .db db → (v.getCoin outpoint).2 = .db db) ∧ (v.getCoin outpoint).2.Ok := by
  induction v with
  | db base => exact ⟨rfl, rfl, rfl, fun _ h => h, trivial⟩
  | cache hashBlock cacheCoins base ih =>
    obtain ⟨hvalue, hutxo, hbest, hdb, hbase⟩ := ih hok.1
    have hspec := fetchFrom_spec (c := ⟨base, hashBlock, cacheCoins⟩) ⟨hok.1, hok.2⟩ outpoint
      hvalue hutxo hbest hdb hbase
    refine ⟨hspec.value, hspec.utxo, ?_, fun _ h => (by cases h), (toView_ok_iff _).mpr hspec.ok⟩
    have hhash := hspec.hashBlock
    have hbelow := hspec.grows.base_bestBlock
    simp only [CCoinsView.getCoin, CCoinsViewCache.toView, CCoinsView.bestBlock, hhash, hbelow]

theorem fetchCoin_spec (hok : c.Ok) (outpoint : COutPoint) :
    FetchSpec c outpoint (c.fetchCoin outpoint).1 (c.fetchCoin outpoint).2 := by
  obtain ⟨hvalue, hutxo, hbest, hdb, hbase⟩ := c.base.getCoin_spec outpoint hok.base_ok
  exact fetchFrom_spec hok outpoint hvalue hutxo hbest hdb hbase

structure Keeps (c c' : CCoinsViewCache) : Prop where
  ok : c'.Ok
  grows : Extends c c'
  hashBlock : c'.hashBlock = c.hashBlock

theorem Keeps.refl (hok : c.Ok) : Keeps c c :=
  ⟨hok, Extends.refl c, rfl⟩

theorem Keeps.trans (hab : Keeps a b) (hbc : Keeps b c) : Keeps a c :=
  ⟨hbc.ok, hab.grows.trans hbc.grows, hbc.hashBlock.trans hab.hashBlock⟩

structure ReadSpec (c c' : CCoinsViewCache) : Prop extends Keeps c c' where
  utxo : c'.utxo = c.utxo

theorem ReadSpec.refl (hok : c.Ok) : ReadSpec c c :=
  ⟨Keeps.refl hok, rfl⟩

theorem ReadSpec.trans (hab : ReadSpec a b) (hbc : ReadSpec b c) : ReadSpec a c :=
  ⟨hab.toKeeps.trans hbc.toKeeps, hbc.utxo.trans hab.utxo⟩

theorem FetchSpec.read (h : FetchSpec c outpoint it c') : ReadSpec c c' :=
  ⟨⟨h.ok, h.grows, h.hashBlock⟩, h.utxo⟩

theorem getCoin_spec (hok : c.Ok) (outpoint : COutPoint) :
    (c.getCoin outpoint).1 = c.utxo outpoint ∧ ReadSpec c (c.getCoin outpoint).2 :=
  ⟨(fetchCoin_spec hok outpoint).value, (fetchCoin_spec hok outpoint).read⟩

theorem accessCoin_spec (hok : c.Ok) (outpoint : COutPoint) :
    (c.accessCoin outpoint).1 = (c.utxo outpoint).getD Coin.empty ∧
      ReadSpec c (c.accessCoin outpoint).2 :=
  ⟨(fetchCoin_spec hok outpoint).accessed, (fetchCoin_spec hok outpoint).read⟩

theorem absent_of_not_found {found : Bool} {value : Option Coin} (h : found = value.isSome)
    (hfound : found = false) : value = none := by
  rwa [hfound, Bool.false_eq, Option.isSome_eq_false_iff, Option.isNone_iff_eq_none] at h

theorem haveCoin_spec (hok : c.Ok) (outpoint : COutPoint) :
    (c.haveCoin outpoint).1 = (c.utxo outpoint).isSome ∧ ReadSpec c (c.haveCoin outpoint).2 :=
  ⟨(fetchCoin_spec hok outpoint).have_iff, (fetchCoin_spec hok outpoint).read⟩

/-! ### Writing -/

theorem insert_spec (hok : c.Ok) (outpoint : COutPoint)
    (entry : CCoinsCacheEntry) (hsound : Sound (c.base.utxo outpoint) (some entry.toEntry))
    (hcleared : entry.coin.isSpent = true → entry.coin = Coin.empty) :
    Keeps c { c with cacheCoins := c.cacheCoins.insert outpoint entry } ∧
      CCoinsViewCache.utxo { c with cacheCoins := c.cacheCoins.insert outpoint entry } =
        Function.update c.utxo outpoint entry.coin.unspent := by
  refine ⟨⟨⟨hok.base_ok, hok.cache_ok.insert hsound hcleared⟩, ⟨rfl, rfl, fun _ h => h, ?_⟩, rfl⟩,
    ?_⟩
  · intro o _ hmem
    exact (AList.mem_insert _).mpr (Or.inr hmem)
  · funext o
    rw [utxo_apply, cellOf_insert]
    by_cases ho : o = outpoint
    · subst ho
      rw [if_pos rfl, Function.update_self]
      rfl
    · rw [if_neg ho, Function.update_of_ne ho, c.utxo_apply]

theorem addedEntry_toEntry (cacheCoins : CCoinsMap) (outpoint : COutPoint)
    (possible_overwrite : Bool) (hunspent : coin.isSpent = false) :
    (CCoinsViewCache.addedEntry (cacheCoins.lookup outpoint) coin possible_overwrite).toEntry =
      put (cellOf cacheCoins outpoint) coin possible_overwrite := by
  rw [cellOf]
  cases cacheCoins.lookup outpoint <;>
    simp [CCoinsViewCache.addedEntry, CCoinsCacheEntry.toEntry, put,
      Coin.unspent_of_not_isSpent hunspent]

variable {possible_overwrite : Bool}

/-- Without `possible_overwrite`, no coin may be visible where one will be kept. -/
theorem addCoin_spec (hok : c.Ok) (hunspent : coin.isSpent = false)
    (hpromise : possible_overwrite = false →
      isUnspendable coin.out.scriptPubKey = false → c.utxo outpoint = none) :
    ∃ c', c.addCoin outpoint coin possible_overwrite = .ok c' ∧ Keeps c c' ∧
      c'.utxo = c.utxo.add outpoint coin := by
  by_cases hscript : isUnspendable coin.out.scriptPubKey = true
  · refine ⟨c, ?_, Keeps.refl hok, ?_⟩
    · simp [CCoinsViewCache.addCoin, hunspent, hscript, pure, Except.pure]
    · rw [Utxo.add, if_pos hscript]
  · have hvisible : possible_overwrite = false →
        view (cellOf c.cacheCoins outpoint) (c.base.utxo outpoint) = none := by
      intro hoverwrite
      rw [← c.utxo_apply]
      exact hpromise hoverwrite (Bool.eq_false_iff.mpr hscript)
    have hguard : (possible_overwrite ||
        (c.cacheCoins.lookup outpoint).all fun entry => entry.coin.isSpent) = true := by
      cases possible_overwrite with
      | true => rfl
      | false =>
        have hnone := hvisible rfl
        cases hlookup : c.cacheCoins.lookup outpoint with
        | none => rfl
        | some entry =>
          rw [cellOf_of_lookup hlookup] at hnone
          simpa using Coin.unspent_eq_none.mp hnone
    have hentry := addedEntry_toEntry c.cacheCoins outpoint possible_overwrite hunspent
    obtain ⟨hkeeps, hutxo⟩ := insert_spec hok outpoint
      (CCoinsViewCache.addedEntry (c.cacheCoins.lookup outpoint) coin possible_overwrite)
      (hentry ▸ put_sound (hok.cache_ok.sound outpoint) hvisible)
      (fun hspent => absurd (hunspent.symm.trans hspent) Bool.false_ne_true)
    refine ⟨_, ?_, hkeeps, ?_⟩
    · simp only [CCoinsViewCache.addCoin, hunspent, hscript, hguard, Bool.not_false,
        require_true, ok_bind, Bool.false_eq_true, if_false]
      rfl
    · rw [hutxo, Utxo.add, if_neg hscript]
      exact congrArg (Function.update c.utxo outpoint) (Coin.unspent_of_not_isSpent hunspent)

theorem addCoin_unspent (h : c.addCoin outpoint coin possible_overwrite = .ok c') :
    coin.isSpent = false := by
  rw [CCoinsViewCache.addCoin, bind_eq_ok] at h
  obtain ⟨u, hunspent, -⟩ := h
  simpa using hunspent

theorem spendCoin_spec (hok : c.Ok) (outpoint : COutPoint) :
    (c.spendCoin outpoint).1.getD Coin.empty = (c.utxo outpoint).getD Coin.empty ∧
      (c.utxo outpoint ≠ none → (c.spendCoin outpoint).1 = c.utxo outpoint) ∧
      Keeps c (c.spendCoin outpoint).2 ∧
      (c.spendCoin outpoint).2.utxo = c.utxo.spend outpoint := by
  have hspec := fetchCoin_spec hok outpoint
  have haccess := hspec.accessed
  rw [CCoinsViewCache.spendCoin]
  generalize hfetch : c.fetchCoin outpoint = fetched at hspec haccess ⊢
  obtain ⟨it, c₁⟩ := fetched
  simp only at hspec haccess ⊢
  cases it with
  | none =>
    have habsent : c.utxo outpoint = none := hspec.value.symm
    refine ⟨haccess, fun h => absurd habsent h, hspec.read.toKeeps, ?_⟩
    rw [hspec.utxo, Utxo.spend, ← habsent, Function.update_eq_self]
  | some entry =>
    have hmoved : c.utxo outpoint ≠ none → some entry.coin = c.utxo outpoint := by
      intro hpresent
      rw [← hspec.value, Option.bind_some] at hpresent ⊢
      rw [ne_eq, Coin.unspent_eq_none, Bool.not_eq_true] at hpresent
      rw [Coin.unspent_of_not_isSpent hpresent]
    by_cases hfresh : entry.fresh = true
    · have hsound := hspec.ok.cache_ok.sound outpoint
      rw [cellOf_of_lookup hspec.found] at hsound
      have hbelow : c₁.base.utxo outpoint = none := hsound.fresh_absent _ rfl hfresh
      simp only [hfresh, if_true]
      refine ⟨haccess, hmoved, hspec.read.toKeeps.trans
        ⟨⟨hspec.ok.base_ok, hspec.ok.cache_ok.erase outpoint⟩, ⟨rfl, rfl, fun _ h => h, ?_⟩, rfl⟩,
        ?_⟩
      · intro o hpresent hmem
        refine AList.mem_erase.mpr ⟨?_, hmem⟩
        rintro rfl
        exact hpresent hbelow
      · funext o
        rw [utxo_apply, cellOf_erase, Utxo.spend]
        by_cases ho : o = outpoint
        · subst ho
          rw [if_pos rfl, Function.update_self, view_none]
          exact hbelow
        · rw [if_neg ho, Function.update_of_ne ho, ← hspec.utxo, c₁.utxo_apply]
    · obtain ⟨hkeeps, hutxo⟩ := insert_spec hspec.ok outpoint
        { coin := Coin.empty, dirty := true, fresh := entry.fresh }
        (sound_some.mpr ⟨fun h => absurd h hfresh, fun h => (by cases h)⟩) (fun _ => rfl)
      simp only [hfresh, if_false, Bool.false_eq_true]
      rw [Bool.not_eq_true] at hfresh
      rw [hfresh] at hkeeps hutxo
      refine ⟨haccess, hmoved, hspec.read.toKeeps.trans hkeeps, ?_⟩
      rw [hutxo, hspec.utxo]
      rfl

/-! ### Uncaching, at any depth -/

/-- `Uncache` on the cache `layer` levels below the topmost one of a view. -/
def CCoinsView.uncacheAt : Nat → CCoinsView → COutPoint → CCoinsView
  | 0, .cache hashBlock cacheCoins base, outpoint =>
    (CCoinsViewCache.uncache ⟨base, hashBlock, cacheCoins⟩ outpoint).toView
  | layer + 1, .cache hashBlock cacheCoins base, outpoint =>
    .cache hashBlock cacheCoins (base.uncacheAt layer outpoint)
  | _, .db base, _ => .db base

theorem uncache_spec (hok : c.Ok) (outpoint : COutPoint) :
    (c.uncache outpoint).Ok ∧ (c.uncache outpoint).utxo = c.utxo := by
  rw [CCoinsViewCache.uncache]
  cases hlookup : c.cacheCoins.lookup outpoint with
  | none => exact ⟨hok, rfl⟩
  | some entry =>
    by_cases hflags : (!entry.dirty && !entry.fresh) = true
    · simp only [hflags, if_true]
      refine ⟨⟨hok.base_ok, hok.cache_ok.erase outpoint⟩, ?_⟩
      simp only [Bool.and_eq_true, Bool.not_eq_true'] at hflags
      have hsound := hok.cache_ok.sound outpoint
      rw [cellOf_of_lookup hlookup] at hsound
      funext o
      rw [utxo_apply, cellOf_erase, c.utxo_apply]
      by_cases ho : o = outpoint
      · subst ho
        rw [if_pos rfl, cellOf_of_lookup hlookup]
        exact drop_clean_view hsound hflags.1
      · rw [if_neg ho]
    · simp only [hflags, if_false, Bool.false_eq_true]
      exact ⟨hok, trivial⟩

theorem uncacheAt_spec (v : CCoinsView) (layer : Nat) (outpoint : COutPoint) (hok : v.Ok) :
    (v.uncacheAt layer outpoint).Ok ∧ (v.uncacheAt layer outpoint).utxo = v.utxo := by
  induction v generalizing layer with
  | db base => cases layer <;> exact ⟨trivial, rfl⟩
  | cache hashBlock cacheCoins base ih =>
    cases layer with
    | zero =>
      obtain ⟨hok', hutxo⟩ := uncache_spec (c := ⟨base, hashBlock, cacheCoins⟩) ⟨hok.1, hok.2⟩
        outpoint
      exact ⟨(toView_ok_iff _).mpr hok', hutxo⟩
    | succ layer =>
      obtain ⟨hok', hutxo⟩ := ih layer hok.1
      rw [CCoinsView.uncacheAt]
      refine ⟨⟨hok', hutxo ▸ hok.2⟩, ?_⟩
      funext o
      rw [utxo_cache, utxo_cache, hutxo]

/-! ### Flushing -/

theorem batchWriteEntry_spec (hok : CacheOk cacheCoins below) {it : CCoinsCacheEntry}
    (hsound : Sound (view (cellOf cacheCoins outpoint) (below outpoint)) (some it.toEntry))
    (hcleared : it.coin.isSpent = true → it.coin = Coin.empty) :
    ∃ m, batchWriteEntry cacheCoins outpoint it = .ok m ∧ CacheOk m below ∧
      ∀ o, cellOf m o = if o = outpoint
        then merge (some it.toEntry) (cellOf cacheCoins outpoint) else cellOf cacheCoins o := by
  have hmerged := merge_sound hsound (hok.sound outpoint)
  unfold batchWriteEntry
  by_cases hdirty : it.dirty = true
  · rw [if_pos hdirty]
    cases hlookup : cacheCoins.lookup outpoint with
    | none =>
      have hcell : cellOf cacheCoins outpoint = none := cellOf_of_lookup hlookup
      rw [hcell] at hmerged ⊢
      by_cases hdrop : (it.fresh && it.coin.isSpent) = true
      · have hdropped : merge (some it.toEntry) none = none := by simp [merge, hdirty, hdrop]
        refine ⟨cacheCoins, by simp only [hdrop, if_true], hok, fun o => ?_⟩
        split
        · rename_i ho
          rw [ho, hcell, hdropped]
        · rfl
      · have hstored : merge (some it.toEntry) none =
            some (CCoinsCacheEntry.toEntry
              { coin := it.coin, dirty := true, fresh := it.fresh }) := by
          simp only [merge, toEntry_dirty, hdirty, if_true,
            toEntry_fresh, toEntry_isNone, hdrop,
            Bool.false_eq_true, if_false]
          rfl
        rw [hstored] at hmerged ⊢
        exact ⟨_, by simp only [hdrop, if_false, Bool.false_eq_true],
          hok.insert hmerged hcleared, fun o => cellOf_insert _ _ _ _⟩
    | some itUs =>
      have hcell : cellOf cacheCoins outpoint = some itUs.toEntry := cellOf_of_lookup hlookup
      have hmisapplied := conflict_eq_false hsound
      rw [hcell] at hmerged hmisapplied ⊢
      simp only [conflict, toEntry_dirty, hdirty, Bool.true_and,
        toEntry_fresh, toEntry_isSome] at hmisapplied
      by_cases hdrop : (itUs.fresh && it.coin.isSpent) = true
      · have hdropped : merge (some it.toEntry) (some itUs.toEntry) = none := by
          simp [merge, hdirty, hdrop]
        rw [hdropped]
        exact ⟨_, by simp only [hmisapplied, hdrop, if_true, if_false, Bool.false_eq_true],
          hok.erase outpoint, fun o => cellOf_erase _ _ _⟩
      · have hstored : merge (some it.toEntry) (some itUs.toEntry) =
            some (CCoinsCacheEntry.toEntry
              { coin := it.coin, dirty := true, fresh := itUs.fresh }) := by
          simp only [merge, toEntry_dirty, hdirty, if_true,
            toEntry_fresh, toEntry_isNone, hdrop,
            Bool.false_eq_true, if_false]
          rfl
        rw [hstored] at hmerged ⊢
        exact ⟨_, by simp only [hmisapplied, hdrop, if_false, Bool.false_eq_true],
          hok.insert hmerged hcleared, fun o => cellOf_insert _ _ _ _⟩
  · rw [if_neg hdirty]
    refine ⟨cacheCoins, rfl, hok, fun o => ?_⟩
    split
    · rename_i ho
      simp [ho, merge, hdirty]
    · rfl

/-- The child's cell at a key, read from the list of its entries. -/
def childCell (entries : List (Sigma fun _ : COutPoint => CCoinsCacheEntry))
    (outpoint : COutPoint) : Cell Coin :=
  (entries.dlookup outpoint).map CCoinsCacheEntry.toEntry

theorem childCell_cons (outpoint o : COutPoint) (it : CCoinsCacheEntry)
    (rest : List (Sigma fun _ : COutPoint => CCoinsCacheEntry)) :
    childCell (⟨outpoint, it⟩ :: rest) o =
      if o = outpoint then some it.toEntry else childCell rest o := by
  by_cases ho : o = outpoint
  · subst ho
    simp [childCell]
  · have hskip := List.dlookup_cons_ne (β := fun _ : COutPoint => CCoinsCacheEntry) rest
      (s := ⟨outpoint, it⟩) ho
    rw [childCell, hskip, if_neg ho, childCell]

/-- By induction on the child's entries, whose keys are distinct. -/
theorem batchWriteEntries_spec {below : Utxo} :
    ∀ (entries : List (Sigma fun _ : COutPoint => CCoinsCacheEntry)) (cacheCoins : CCoinsMap),
      entries.NodupKeys → CacheOk cacheCoins below →
      (∀ o, Sound (view (cellOf cacheCoins o) (below o)) (childCell entries o)) →
      (∀ it ∈ entries, it.2.coin.isSpent = true → it.2.coin = Coin.empty) →
      ∃ m, entries.foldlM (fun m it => batchWriteEntry m it.1 it.2) cacheCoins = .ok m ∧
        CacheOk m below ∧
        ∀ o, view (cellOf m o) (below o) =
          view (childCell entries o) (view (cellOf cacheCoins o) (below o))
  | [], cacheCoins, _, hok, _, _ => ⟨cacheCoins, rfl, hok, fun _ => rfl⟩
  | ⟨outpoint, it⟩ :: rest, cacheCoins, hnodup, hok, hsound, hcleared => by
      rw [List.nodupKeys_cons] at hnodup
      have hhead := hsound outpoint
      rw [childCell_cons, if_pos rfl] at hhead
      obtain ⟨m₁, hrun₁, hok₁, hcell₁⟩ := batchWriteEntry_spec hok hhead
        (hcleared ⟨outpoint, it⟩ (List.mem_cons_self))
      have hrest : childCell rest outpoint = none := by
        rw [childCell, List.dlookup_eq_none.mpr hnodup.1, Option.map_none]
      have hsound₁ : ∀ o, Sound (view (cellOf m₁ o) (below o)) (childCell rest o) := by
        intro o
        by_cases ho : o = outpoint
        · rw [ho, hrest]
          exact sound_none _
        · have h := hsound o
          rw [childCell_cons, if_neg ho] at h
          rwa [hcell₁, if_neg ho]
      obtain ⟨m, hrun, hokm, hview⟩ := batchWriteEntries_spec rest m₁ hnodup.2 hok₁ hsound₁
        (List.forall_mem_cons.mp hcleared).2
      refine ⟨m, by rw [List.foldlM_cons, hrun₁, ok_bind, hrun], hokm, fun o => ?_⟩
      rw [hview, hcell₁, childCell_cons]
      by_cases ho : o = outpoint
      · rw [ho, if_pos rfl, if_pos rfl, hrest, view_none,
          merge_view hhead (hok.sound outpoint)]
      · rw [if_neg ho, if_neg ho]

theorem writeEntries_spec :
    ∀ (entries : List (Sigma fun _ : COutPoint => CCoinsCacheEntry)) (db : CCoinsViewDB),
      entries.NodupKeys → (∀ o, Sound (db.coins o) (childCell entries o)) →
      ∀ o, (db.writeEntries entries).coins o = view (childCell entries o) (db.coins o)
  | [], _, _, _, _ => rfl
  | ⟨outpoint, it⟩ :: rest, db, hnodup, hsound, o => by
      rw [List.nodupKeys_cons] at hnodup
      have hrest : childCell rest outpoint = none := by
        rw [childCell, List.dlookup_eq_none.mpr hnodup.1, Option.map_none]
      have hhead := hsound outpoint
      rw [childCell_cons, if_pos rfl] at hhead
      rw [CCoinsViewDB.writeEntries, List.foldl_cons]
      set db₁ : CCoinsViewDB := if it.dirty then db.writeCoin outpoint it.coin else db with hdb₁
      have hcoins₁ : ∀ o, db₁.coins o =
          if o = outpoint then it.toEntry.value else db.coins o := by
        intro o
        by_cases hdirty : it.dirty = true
        · rw [hdb₁, if_pos hdirty]
          by_cases ho : o = outpoint
          · rw [ho, if_pos rfl]
            exact Function.update_self _ _ _
          · rw [if_neg ho]
            exact Function.update_of_ne ho _ _
        · rw [hdb₁, if_neg hdirty]
          rw [Bool.not_eq_true] at hdirty
          split
          · rename_i ho
            rw [ho]
            exact (hhead.clean_same _ rfl hdirty).symm
          · rfl
      have hsound₁ : ∀ o, Sound (db₁.coins o) (childCell rest o) := by
        intro o
        by_cases ho : o = outpoint
        · rw [ho, hrest]
          exact sound_none _
        · have h := hsound o
          rw [childCell_cons, if_neg ho] at h
          rwa [hcoins₁, if_neg ho]
      have ih := writeEntries_spec rest db₁ hnodup.2 hsound₁ o
      rw [CCoinsViewDB.writeEntries] at ih
      rw [ih, hcoins₁, childCell_cons]
      by_cases ho : o = outpoint
      · rw [ho, if_pos rfl, if_pos rfl, hrest, view_none, view_some]
      · rw [if_neg ho, if_neg ho]

/-- The two assertions of the database about the hash it is asked to write. -/
def CCoinsView.acceptsBestBlock : CCoinsView → UInt256 → Bool
  | .db base, hashBlock =>
    !hashBlock.isNull && (!(base.bestBlock.isNull && base.headBlocks.length == 2) ||
      base.headBlocks.head? == some hashBlock)
  | .cache _ _ _, _ => true

/-- **Writing a cache to its base makes the base stand for the same coins.** -/
theorem batchWrite_spec {base : CCoinsView} (hok : base.Ok) {mapCoins : CCoinsMap}
    (hmap : CacheOk mapCoins base.utxo) {hashBlock : UInt256}
    (haccepts : base.acceptsBestBlock hashBlock = true) :
    ∃ base', base.batchWrite mapCoins hashBlock = .ok base' ∧ base'.Ok ∧
      base'.utxo = (CCoinsView.cache hashBlock mapCoins base).utxo ∧
      (hashBlock.isNull = false → base'.bestBlock = hashBlock) := by
  have hchild : ∀ o, childCell mapCoins.entries o = cellOf mapCoins o := fun _ => rfl
  have hcleared : ∀ it ∈ mapCoins.entries, it.2.coin.isSpent = true → it.2.coin = Coin.empty := by
    rintro ⟨outpoint, it⟩ hmem hspent
    exact hmap.cleared outpoint it
      (List.mem_dlookup mapCoins.nodupKeys hmem) hspent
  cases base with
  | db base =>
    simp only [CCoinsView.acceptsBestBlock, Bool.and_eq_true] at haccepts
    have hcoins := writeEntries_spec mapCoins.entries base mapCoins.nodupKeys hmap.sound
    refine ⟨.db { base.writeEntries mapCoins.entries with
      bestBlock := hashBlock, headBlocks := [] }, ?_, trivial, ?_, fun _ => rfl⟩
    · simp only [CCoinsView.batchWrite, CCoinsViewDB.batchWrite, haccepts.1, haccepts.2,
        require_true, ok_bind]
      rfl
    · funext o
      rw [utxo_cache, ← hchild]
      exact hcoins o
  | cache hash cacheCoins base =>
    have hsound : ∀ o, Sound (view (cellOf cacheCoins o) (base.utxo o))
        (childCell mapCoins.entries o) := by
      intro o
      rw [← utxo_cache hash]
      exact hmap.sound o
    obtain ⟨m, hrun, hokm, hview⟩ := batchWriteEntries_spec mapCoins.entries cacheCoins
      mapCoins.nodupKeys hok.2 hsound hcleared
    refine ⟨.cache hashBlock m base, ?_, ⟨hok.1, hokm⟩, ?_, ?_⟩
    · simp only [CCoinsView.batchWrite, hrun, ok_bind]
      rfl
    · funext o
      rw [utxo_cache, utxo_cache, utxo_cache, hview]
      rfl
    · intro hnull
      simp [CCoinsView.bestBlock, hnull]

theorem flush_spec (hok : c.Ok) (haccepts : c.base.acceptsBestBlock c.hashBlock = true) :
    ∃ c', c.flush = .ok c' ∧ c'.Ok ∧ c'.hashBlock = c.hashBlock ∧ c'.cacheCoins = ∅ ∧
      c'.utxo = c.utxo ∧ c'.base.utxo = c.utxo ∧
      (c.hashBlock.isNull = false → c'.base.bestBlock = c.hashBlock) := by
  obtain ⟨base, hrun, hbase, hutxo, hbest⟩ := batchWrite_spec hok.base_ok hok.cache_ok haccepts
  refine ⟨{ c with base, cacheCoins := ∅ }, ?_, ⟨hbase, CacheOk.empty _⟩, rfl, rfl, ?_, hutxo,
    hbest⟩
  · simp only [CCoinsViewCache.flush, hrun, ok_bind]
    rfl
  · funext o
    rw [utxo_apply, show cellOf ∅ o = none from rfl, view_none, hutxo]
    rfl

end VBitcoin
