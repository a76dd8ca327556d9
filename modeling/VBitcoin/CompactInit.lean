import VBitcoin.BlockEncoding

/-!
**The accesses of `InitData`** (`blockencodings.cpp`) — with every access to a vector, the
signed sums and the 16-bit counter as steps that can fail.  The offsets are the peer's choice;
one check keeps as many slots free as there are short ids, so that the loop that skips filled
slots finds a free one.
-/

namespace VBitcoin

open List

/-! ### The code, with its accesses -/

def readAt {α : Type} (xs : List α) (i : Nat) : Run α :=
  match xs[i]? with
  | some x => .ok x
  | none => .error (.undefined "vector[i]")

def writeAt {α : Type} (xs : List α) (i : Nat) (x : α) : Run (List α) :=
  if i < xs.length then .ok (xs.set i x) else .error (.undefined "vector[i]")

def addInt32 (a b : Int) : Run Int :=
  if -2 ^ 31 ≤ a + b ∧ a + b < 2 ^ 31 then .ok (a + b) else .error .overflow

def placeAt (nShort : Nat) :
    Nat → Int → List PrefilledTransaction → Slots → Run (ReadStatus × Slots)
  | _, _, [], slots => pure (.READ_STATUS_OK, slots)
  | i, lastprefilledindex, prefilled :: rest, slots =>
    if prefilled.tx.isNull then pure (.READ_STATUS_INVALID, slots)
    else do
      let lastprefilledindex ← addInt32 lastprefilledindex (prefilled.index.toNat + 1)
      if 65535 < lastprefilledindex then pure (.READ_STATUS_INVALID, slots)
      else if ((nShort + i : Nat) : Int) < lastprefilledindex then
        pure (.READ_STATUS_INVALID, slots)
      else do
        let slots ← writeAt slots lastprefilledindex.toNat (some prefilled.tx)
        placeAt nShort (i + 1) lastprefilledindex rest slots

/-- The loop over filled slots; a read past the end fails. -/
def skipFilled (slots : Slots) (i : Nat) : Nat → Nat → Run Nat
  | 0, _ => .error (.undefined "turns")
  | turns + 1, index_offset => do
    let slot ← readAt slots (i + index_offset)
    if slot.isSome then
      if index_offset + 1 < 2 ^ 16 then skipFilled slots i turns (index_offset + 1)
      else .error .overflow
    else pure index_offset

/-- The loop over the short ids; `none` is an overfull bucket. -/
def mapAt (lib : ShortIdLib) (slots : Slots) :
    Nat → Nat → List UInt64 → List UInt64 → ShortIdMap → Run (Option ShortIdMap)
  | _, _, _, [], m => pure (some m)
  | i, index_offset, seen, id :: rest, m => do
    let index_offset ← skipFilled slots i (slots.length + 1) index_offset
    if 12 < lib.bucketSize (seen ++ [id]) then pure none
    else
      let slot := (i + index_offset) % 2 ^ 16
      mapAt lib slots (i + 1) index_offset (seen ++ [id]) rest (m.insert id slot)

def offerAt (clashes : CTransaction → CTransaction → Bool) (m : ShortIdMap) (shortid : UInt64)
    (tx : CTransaction) (s : PoolSearch) : Run PoolSearch :=
  match m.find shortid with
  | none => pure s
  | some slot => do
    let have_txn ← readAt s.have_txn slot
    if !have_txn then do
      let txn_available ← writeAt s.txn_available slot (some tx)
      let have_txn ← writeAt s.have_txn slot true
      pure { txn_available, have_txn, mempool_count := s.mempool_count + 1 }
    else do
      match ← readAt s.txn_available slot with
      | none => pure s
      | some present =>
        if clashes present tx then do
          let txn_available ← writeAt s.txn_available slot none
          pure { s with txn_available, mempool_count := s.mempool_count - 1 }
        else pure s

def searchAt (clashes : CTransaction → CTransaction → Bool) (shortID : UInt256 → UInt64)
    (m : ShortIdMap) : List (UInt256 × CTransaction) → PoolSearch → Run PoolSearch
  | [], s => pure s
  | (hash, tx) :: rest, s => do
    let s ← offerAt clashes m (shortID hash) tx s
    if s.mempool_count == m.length then pure s else searchAt clashes shortID m rest s

def NodeEnv.initDataAt (E : NodeEnv) (lib : ShortIdLib) (partialBlock : PartiallyDownloadedBlock)
    (cmpctblock : CBlockHeaderAndShortTxIDs) (vTxHashes extra_txn : List (UInt256 × CTransaction)) :
    Run (ReadStatus × PartiallyDownloadedBlock) :=
  if cmpctblock.header.isNull ||
      (cmpctblock.shorttxids.isEmpty && cmpctblock.prefilledtxn.isEmpty) then
    pure (.READ_STATUS_INVALID, partialBlock)
  else if MAX_BLOCK_WEIGHT / MIN_SERIALIZABLE_TRANSACTION_WEIGHT < cmpctblock.blockTxCount then
    pure (.READ_STATUS_INVALID, partialBlock)
  else do
    require (partialBlock.header.isNull && partialBlock.txn_available.isEmpty)
      (.assertion "header.IsNull() && txn_available.empty()")
    let (status, txn_available) ← placeAt cmpctblock.shorttxids.length 0 (-1)
      cmpctblock.prefilledtxn (List.replicate cmpctblock.blockTxCount none)
    let partialBlock := { partialBlock with header := cmpctblock.header, txn_available }
    if status != .READ_STATUS_OK then pure (status, partialBlock)
    else do
      match ← mapAt lib txn_available 0 0 [] cmpctblock.shorttxids [] with
      | none => pure (.READ_STATUS_FAILED, partialBlock)
      | some shorttxids =>
        if shorttxids.length != cmpctblock.shorttxids.length then
          pure (.READ_STATUS_FAILED, partialBlock)
        else do
          let shortID :=
            CBlockHeaderAndShortTxIDs.getShortID lib cmpctblock.header cmpctblock.nonce
          let found ← searchAt (fun _ _ => true) shortID shorttxids vTxHashes
            { txn_available
              have_txn := List.replicate txn_available.length false
              mempool_count := partialBlock.mempool_count }
          let found ← searchAt (fun present tx => E.wtxid present != E.wtxid tx) shortID shorttxids
            extra_txn found
          pure (.READ_STATUS_OK,
            { partialBlock with
              txn_available := found.txn_available
              mempool_count := found.mempool_count
              popData := cmpctblock.popData })

variable {i p : Nat}

theorem readAt_eq_ok {α : Type} {xs : List α} {x : α} (h : xs[i]? = some x) :
    readAt xs i = .ok x := by
  rw [readAt, h]

theorem writeAt_eq_ok {α : Type} {xs : List α} (h : i < xs.length) (x : α) :
    writeAt xs i x = .ok (xs.set i x) := if_pos h

/-! ### Free slots -/

def freeFrom (slots : Slots) (start : Nat) : List Nat :=
  (List.range' start (slots.length - start)).filter fun p => slots[p]? == some none

variable {slots : Slots} {start : Nat}

theorem freeFrom_of_lt (h : start < slots.length) :
    freeFrom slots start =
      if slots[start]? = some none then start :: freeFrom slots (start + 1)
      else freeFrom slots (start + 1) := by
  have hcount : slots.length - start = (slots.length - (start + 1)) + 1 := by omega
  rw [freeFrom, hcount, range'_succ, filter_cons]
  simp only [beq_iff_eq]
  rfl

theorem freeFrom_eq_nil (h : slots.length ≤ start) : freeFrom slots start = [] := by
  rw [freeFrom, Nat.sub_eq_zero_of_le h]
  rfl

theorem freeFrom_cons {rest : List Nat}
    (h : freeFrom slots start = p :: rest) : start < slots.length ∧
      ((slots[start]? = some none ∧ p = start ∧ rest = freeFrom slots (start + 1)) ∨
        ((∃ tx, slots[start]? = some (some tx)) ∧ freeFrom slots (start + 1) = p :: rest)) := by
  have hlt : start < slots.length := by
    by_contra hge
    rw [freeFrom_eq_nil (Nat.not_lt.mp hge)] at h
    cases h
  refine ⟨hlt, ?_⟩
  rw [freeFrom_of_lt hlt] at h
  have hslot : slots[start]? = some slots[start] := getElem?_eq_getElem hlt
  split at h
  · rename_i hnone
    cases h
    exact .inl ⟨hnone, rfl, rfl⟩
  · rename_i hsome
    refine .inr ⟨?_, h⟩
    cases hvalue : slots[start] with
    | none => exact absurd (hslot.trans (congrArg some hvalue)) hsome
    | some tx => exact ⟨tx, hslot.trans (congrArg some hvalue)⟩

theorem mem_freeFrom : p ∈ freeFrom slots start ↔ start ≤ p ∧ slots[p]? = some none := by
  rw [freeFrom, mem_filter, mem_range'_1, beq_iff_eq]
  constructor
  · rintro ⟨⟨hle, -⟩, hnone⟩
    exact ⟨hle, hnone⟩
  · rintro ⟨hle, hnone⟩
    obtain ⟨hlt, -⟩ := List.getElem?_eq_some_iff.mp hnone
    exact ⟨⟨hle, by omega⟩, hnone⟩

/-- **The skipping loop finds the next free slot**, before the counter is full. -/
theorem skipFilled_eq_ok {slots : Slots} {i p : Nat} {rest : List Nat} (hp : p < 2 ^ 16) :
    ∀ {turns index_offset : Nat}, freeFrom slots (i + index_offset) = p :: rest →
      slots.length < turns + (i + index_offset) →
      skipFilled slots i turns index_offset = .ok (p - i) ∧ i + index_offset ≤ p ∧
        p < slots.length ∧ rest = freeFrom slots (p + 1) ∧
        index_offset + countFilled (slots.drop (i + index_offset)) = p - i
  | 0, index_offset, hfree, hturns => by
    have hlt := (freeFrom_cons hfree).1
    omega
  | turns + 1, index_offset, hfree, hturns => by
    obtain ⟨hlt, hcases⟩ := freeFrom_cons hfree
    have hdrop : slots.drop (i + index_offset) =
        slots[i + index_offset] :: slots.drop (i + index_offset + 1) := drop_eq_getElem_cons hlt
    have hget : slots[i + index_offset]? = some slots[i + index_offset] :=
      getElem?_eq_getElem hlt
    rw [skipFilled, readAt_eq_ok hget, ok_bind, hdrop]
    rcases hcases with ⟨hnone, rfl, rfl⟩ | ⟨⟨tx, hsome⟩, hnext⟩
    · have hvalue : slots[i + index_offset] = none := Option.some.inj (hget.symm.trans hnone)
      rw [hvalue, Nat.add_sub_cancel_left]
      exact ⟨rfl, le_refl _, hlt, rfl, rfl⟩
    · have hvalue : slots[i + index_offset] = some tx := Option.some.inj (hget.symm.trans hsome)
      have hmore : i + index_offset + 1 ≤ p :=
        (mem_freeFrom.mp (hnext ▸ mem_cons_self)).1
      obtain ⟨hskip, -, hrange, hrest, hcount⟩ :=
        skipFilled_eq_ok hp
          (show freeFrom slots (i + (index_offset + 1)) = p :: rest by rwa [← Nat.add_assoc])
          (show slots.length < turns + (i + (index_offset + 1)) by omega)
      rw [← Nat.add_assoc] at hcount
      rw [hvalue, if_pos Option.isSome_some, if_pos (by omega), hskip, countFilled]
      exact ⟨rfl, by omega, hrange, hrest, by omega⟩

/-- What the map gets: the short ids with the free slots, in order. -/
def ShortIdMap.insertAll (m : ShortIdMap) (entries : List (UInt64 × Nat)) : ShortIdMap :=
  entries.foldl (fun m entry => m.insert entry.1 entry.2) m

/-- The short ids go to the free slots in order, if there are enough. -/
theorem mapAt_eq_ok {lib : ShortIdLib} {slots : Slots} (hslots : slots.length ≤ 65535) :
    ∀ {ids : List UInt64} {i index_offset : Nat} {seen : List UInt64} {m : ShortIdMap},
      ids.length ≤ (freeFrom slots (i + index_offset)).length →
      mapAt lib slots i index_offset seen ids m =
          .ok (mapShortIds lib slots i index_offset seen ids m) ∧
        ∀ m', mapShortIds lib slots i index_offset seen ids m = some m' →
          m' = m.insertAll (ids.zip (freeFrom slots (i + index_offset)))
  | [], i, index_offset, seen, m, _ => by
    refine ⟨rfl, ?_⟩
    rintro _ ⟨⟩
    rfl
  | id :: ids, i, index_offset, seen, m, henough => by
    cases hfree : freeFrom slots (i + index_offset) with
    | nil =>
      rw [hfree] at henough
      cases henough
    | cons p rest =>
      have hlt : p < slots.length :=
        (List.getElem?_eq_some_iff.mp (mem_freeFrom.mp (hfree ▸ mem_cons_self)).2).1
      obtain ⟨hskip, hle, -, hrest, hcount⟩ :=
        skipFilled_eq_ok (show p < 2 ^ 16 by omega) hfree
          (show slots.length < slots.length + 1 + (i + index_offset) by omega)
      have hplace : i + (p - i) = p := by omega
      have hcursor : i + 1 + (p - i) = p + 1 := by omega
      have hlater : ids.length ≤ (freeFrom slots (i + 1 + (p - i))).length := by
        rw [hfree, hrest, length_cons, length_cons] at henough
        rw [hcursor]
        omega
      have hmod : p % 2 ^ 16 = p := Nat.mod_eq_of_lt (by omega)
      rw [mapAt, mapShortIds, hskip, ok_bind, hcount]
      simp only [hplace, hmod]
      split
      · exact ⟨rfl, fun _ h => by cases h⟩
      · obtain ⟨hmap, hall⟩ := mapAt_eq_ok hslots hlater
        rw [hmap]
        refine ⟨rfl, fun m' hm' => ?_⟩
        rw [hall m' hm', hcursor, ← hrest]
        rfl

/-! ### The prefilled transactions -/

def prefilledFrom : Nat → List PrefilledTransaction → List Nat
  | _, [] => []
  | next, prefilled :: rest =>
    (next + prefilled.index.toNat) :: prefilledFrom (next + prefilled.index.toNat + 1) rest

theorem le_of_mem_prefilledFrom : ∀ {next : Nat} {prefilledtxn : List PrefilledTransaction} {p : Nat},
    p ∈ prefilledFrom next prefilledtxn → next ≤ p
  | next, prefilled :: rest, p, h => by
    rcases mem_cons.mp h with rfl | h
    · exact Nat.le_add_right _ _
    · have := le_of_mem_prefilledFrom h
      omega

theorem nodup_prefilledFrom : ∀ (next : Nat) (prefilledtxn : List PrefilledTransaction),
    (prefilledFrom next prefilledtxn).Nodup
  | _, [] => nodup_nil
  | next, prefilled :: rest => by
    refine nodup_cons.mpr ⟨fun hmem => ?_, nodup_prefilledFrom _ rest⟩
    have := le_of_mem_prefilledFrom hmem
    omega

theorem length_prefilledFrom : ∀ (next : Nat) (prefilledtxn : List PrefilledTransaction),
    (prefilledFrom next prefilledtxn).length = prefilledtxn.length
  | _, [] => rfl
  | _, _ :: rest => congrArg (· + 1) (length_prefilledFrom _ rest)

/-- **No prefilled transaction is written out of range**, and no sum overflows. -/
theorem placeAt_eq_ok {nShort : Nat} :
    ∀ {prefilledtxn : List PrefilledTransaction} {i next : Nat} {slots : Slots},
      slots.length = nShort + i + prefilledtxn.length → next ≤ 65536 →
      placeAt nShort i ((next : Int) - 1) prefilledtxn slots =
        .ok (placePrefilled nShort i next prefilledtxn slots)
  | [], _, _, _, _, _ => rfl
  | prefilled :: rest, i, next, slots, hlength, hnext => by
    have hindex : prefilled.index.toNat < 65536 := prefilled.index.toNat_lt
    have hsum : (next : Int) - 1 + (prefilled.index.toNat + 1) =
        ((next + prefilled.index.toNat : Nat) : Int) := by omega
    have hadd : addInt32 ((next : Int) - 1) (prefilled.index.toNat + 1) =
        .ok ((next + prefilled.index.toNat : Nat) : Int) := by
      rw [addInt32, hsum, if_pos (by omega)]
    rw [placeAt, placePrefilled]
    by_cases hnull : prefilled.tx.isNull = true
    · rw [if_pos hnull, if_pos hnull]
      rfl
    · rw [if_neg hnull, if_neg hnull, hadd, ok_bind]
      by_cases hlarge : 65535 < next + prefilled.index.toNat
      · rw [if_pos (by omega), if_pos hlarge]
        rfl
      · rw [if_neg (by omega), if_neg hlarge]
        by_cases hbeyond : nShort + i < next + prefilled.index.toNat
        · rw [if_pos (by omega), if_pos hbeyond]
          rfl
        · have hin : next + prefilled.index.toNat < slots.length := by
            rw [hlength, length_cons]
            omega
          have hstep : placeAt nShort (i + 1) (((next + prefilled.index.toNat + 1 : Nat) : Int) - 1)
              rest (slots.set (next + prefilled.index.toNat) (some prefilled.tx)) =
                .ok (placePrefilled nShort (i + 1) (next + prefilled.index.toNat + 1) rest
                  (slots.set (next + prefilled.index.toNat) (some prefilled.tx))) :=
            placeAt_eq_ok (by rw [length_set, hlength, length_cons]; omega) (by omega)
          rw [if_neg (by omega), if_neg hbeyond, Int.toNat_natCast, writeAt_eq_ok hin, ok_bind,
            ← hstep]
          congr 1
          omega

theorem placePrefilled_ok {nShort : Nat} :
    ∀ {prefilledtxn : List PrefilledTransaction} {i next : Nat} {slots slots' : Slots},
      slots.length = nShort + i + prefilledtxn.length →
      placePrefilled nShort i next prefilledtxn slots = (.READ_STATUS_OK, slots') →
      slots'.length = slots.length ∧
      (∀ p ∈ prefilledFrom next prefilledtxn, p < slots.length) ∧
      ∀ p, slots'[p]? = some none ↔ slots[p]? = some none ∧ p ∉ prefilledFrom next prefilledtxn
  | [], _, _, slots, _, _, h => by
    cases h
    exact ⟨rfl, nofun, fun p => by simp [prefilledFrom]⟩
  | prefilled :: rest, i, next, slots, slots', hlength, h => by
    rw [placePrefilled] at h
    split at h
    · cases h
    split at h
    · cases h
    split at h
    · cases h
    rename_i hbeyond
    have hin : next + prefilled.index.toNat < slots.length := by
      rw [hlength, length_cons]
      omega
    obtain ⟨hsame, hrange, hfree⟩ := placePrefilled_ok
      (by rw [length_set, hlength, length_cons]; omega) h
    rw [length_set] at hsame hrange
    refine ⟨hsame, forall_mem_cons.mpr ⟨hin, hrange⟩, fun p => ?_⟩
    rw [hfree, prefilledFrom, mem_cons, not_or]
    by_cases heq : p = next + prefilled.index.toNat
    · subst heq
      rw [getElem?_set_self hin]
      simp
    · rw [getElem?_set_ne (Ne.symm heq)]
      simp [heq]

/-! ### The map -/

namespace ShortIdMap

theorem length_insert_le (m : ShortIdMap) (id : UInt64) (slot : Nat) :
    (m.insert id slot).length ≤ m.length + 1 :=
  Nat.succ_le_succ (length_filter_le _ m)

theorem length_insertAll_le (entries : List (UInt64 × Nat)) (m : ShortIdMap) :
    (m.insertAll entries).length ≤ m.length + entries.length := by
  induction entries generalizing m with
  | nil => exact le_refl _
  | cons entry entries ih =>
    have hinsert := length_insert_le m entry.1 entry.2
    have hrest := ih (m.insert entry.1 entry.2)
    rw [length_cons]
    exact hrest.trans (by omega)

variable {m : ShortIdMap}

variable {entries : List (UInt64 × Nat)}

theorem insertAll_eq (h : (m.insertAll entries).length = m.length + entries.length) :
    m.insertAll entries = entries.reverse ++ m := by
  induction entries generalizing m with
  | nil => rfl
  | cons entry entries ih =>
    have hinsert := length_insert_le m entry.1 entry.2
    have hrest := length_insertAll_le entries (m.insert entry.1 entry.2)
    have hgrown : (m.insert entry.1 entry.2).length = m.length + 1 := by
      have htotal : ((m.insert entry.1 entry.2).insertAll entries).length =
          m.length + (entries.length + 1) := h
      omega
    have hfresh : m.filter (fun e => e.1 != entry.1) = m := by
      rw [filter_eq_self, ← length_filter_eq_length_iff]
      exact Nat.succ.inj hgrown
    have hnew : m.insert entry.1 entry.2 = entry :: m := congrArg (entry :: ·) hfresh
    have hlater : (ShortIdMap.insertAll (entry :: m) entries).length =
        (entry :: m).length + entries.length := by
      rw [← hnew, hgrown]
      have htotal : ((m.insert entry.1 entry.2).insertAll entries).length =
          m.length + (entries.length + 1) := h
      omega
    show (m.insert entry.1 entry.2).insertAll entries = _
    rw [hnew, ih hlater, reverse_cons, append_assoc, singleton_append]

theorem nodup_insertAll
    (h : (m.map Prod.fst).Nodup) : ((m.insertAll entries).map Prod.fst).Nodup := by
  induction entries generalizing m with
  | nil => exact h
  | cons entry entries ih =>
    apply ih
    refine nodup_cons.mpr ⟨?_, (filter_sublist.map Prod.fst).nodup h⟩
    intro hmem
    obtain ⟨e, he, heq⟩ := mem_map.mp hmem
    exact bne_iff_ne.mp (mem_filter.mp he).2 heq

theorem find_of_mem (h : (m.map Prod.fst).Nodup) {id : UInt64} {slot : Nat}
    (hmem : (id, slot) ∈ m) : m.find id = some slot := by
  induction m with
  | nil => cases hmem
  | cons entry m ih =>
    rw [map_cons, nodup_cons] at h
    rcases mem_cons.mp hmem with rfl | hmem
    · simp [ShortIdMap.find]
    · have hne : entry.1 ≠ id := fun heq => h.1 (heq ▸ mem_map_of_mem hmem)
      have hskip : ShortIdMap.find (entry :: m) id = ShortIdMap.find m id := by
        simp [ShortIdMap.find, hne]
      rw [hskip]
      exact ih h.2 hmem

end ShortIdMap

/-! ### The pools -/

theorem offerAt_eq_ok {clashes : CTransaction → CTransaction → Bool} {m : ShortIdMap} {n : Nat}
    (hm : ∀ id p, m.find id = some p → p < n) {s : PoolSearch} (hslots : s.txn_available.length = n)
    (hhave : s.have_txn.length = n) (shortid : UInt64) (tx : CTransaction) :
    offerAt clashes m shortid tx s = .ok (s.offer clashes m shortid tx) ∧
      (s.offer clashes m shortid tx).txn_available.length = n ∧
      (s.offer clashes m shortid tx).have_txn.length = n := by
  unfold offerAt PoolSearch.offer
  cases hfind : m.find shortid with
  | none => exact ⟨rfl, hslots, hhave⟩
  | some slot =>
    have hlt := hm shortid slot hfind
    have hslot : slot < s.txn_available.length := hslots ▸ hlt
    have hflag : slot < s.have_txn.length := hhave ▸ hlt
    simp only [readAt_eq_ok (getElem?_eq_getElem hflag), ok_bind,
      getD_eq_getElem _ _ hflag, writeAt_eq_ok hslot, writeAt_eq_ok hflag,
      readAt_eq_ok (getElem?_eq_getElem hslot), getD_eq_getElem _ _ hslot]
    cases s.have_txn[slot] with
    | false => exact ⟨rfl, by simpa using hslots, by simpa using hhave⟩
    | true =>
      cases s.txn_available[slot] with
      | none => exact ⟨rfl, hslots, hhave⟩
      | some present =>
        cases hclash : clashes present tx with
        | false => simp [hclash, hslots, hhave]
        | true => simp [hclash, hslots, hhave]

theorem searchAt_eq_ok {clashes : CTransaction → CTransaction → Bool}
    {shortID : UInt256 → UInt64} {m : ShortIdMap} {n : Nat}
    (hm : ∀ id p, m.find id = some p → p < n) :
    ∀ {pool : List (UInt256 × CTransaction)} {s : PoolSearch}, s.txn_available.length = n →
      s.have_txn.length = n →
      searchAt clashes shortID m pool s = .ok (searchPool clashes shortID m pool s) ∧
        (searchPool clashes shortID m pool s).txn_available.length = n ∧
        (searchPool clashes shortID m pool s).have_txn.length = n
  | [], _, hslots, hhave => ⟨rfl, hslots, hhave⟩
  | (hash, tx) :: rest, s, hslots, hhave => by
    have hstep : offerAt clashes m (shortID hash) tx s =
        .ok (s.offer clashes m (shortID hash) tx) ∧ _ ∧ _ :=
      offerAt_eq_ok hm hslots hhave (shortID hash) tx
    obtain ⟨hoffer, hslots', hhave'⟩ := hstep
    rw [searchAt, searchPool, hoffer, ok_bind]
    split
    · exact ⟨rfl, hslots', hhave'⟩
    · exact searchAt_eq_ok hm hslots' hhave'

/-! ### Every slot has a prefilled transaction or a short id -/

namespace CBlockHeaderAndShortTxIDs

variable (cmpctblock : CBlockHeaderAndShortTxIDs)

def prefilledPositions : List Nat := prefilledFrom 0 cmpctblock.prefilledtxn

/-- The places that no prefilled transaction takes, in order. -/
def unoccupied : List Nat :=
  (List.range cmpctblock.blockTxCount).filter (· ∉ cmpctblock.prefilledPositions)

variable {cmpctblock}

theorem length_unoccupied
    (hrange : ∀ p ∈ cmpctblock.prefilledPositions, p < cmpctblock.blockTxCount) :
    cmpctblock.unoccupied.length = cmpctblock.shorttxids.length := by
  have hsplit := length_eq_length_filter_add (l := List.range cmpctblock.blockTxCount)
    fun p => decide (p ∉ cmpctblock.prefilledPositions)
  have htaken : ((List.range cmpctblock.blockTxCount).filter
      fun p => !decide (p ∉ cmpctblock.prefilledPositions)).length =
        cmpctblock.prefilledtxn.length := by
    rw [← length_prefilledFrom 0 cmpctblock.prefilledtxn]
    apply List.Perm.length_eq
    rw [perm_ext_iff_of_nodup (nodup_range.filter _) (nodup_prefilledFrom 0 _)]
    intro p
    simp only [mem_filter, mem_range, decide_not, Bool.not_not, decide_eq_true_eq]
    exact ⟨fun h => h.2, fun h => ⟨hrange p h, h⟩⟩
  have hcount : cmpctblock.blockTxCount =
      cmpctblock.shorttxids.length + cmpctblock.prefilledtxn.length := rfl
  rw [length_range, htaken] at hsplit
  rw [unoccupied]
  omega

variable {slots : Slots}

theorem freeFrom_eq_unoccupied (hlength : slots.length = cmpctblock.blockTxCount)
    (hfree : ∀ p < cmpctblock.blockTxCount,
      slots[p]? = some none ↔ p ∉ cmpctblock.prefilledPositions) :
    freeFrom slots 0 = cmpctblock.unoccupied := by
  rw [freeFrom, Nat.sub_zero, hlength, ← range_eq_range', unoccupied]
  apply filter_congr
  intro p hp
  rw [Bool.eq_iff_iff, beq_iff_eq, decide_eq_true_eq]
  exact hfree p (mem_range.mp hp)

theorem length_replicate_blockTxCount :
    (List.replicate cmpctblock.blockTxCount (none : Option CTransaction)).length =
      cmpctblock.shorttxids.length + 0 + cmpctblock.prefilledtxn.length := length_replicate

theorem placeAt_prefilled :
    placeAt cmpctblock.shorttxids.length 0 (-1) cmpctblock.prefilledtxn
        (List.replicate cmpctblock.blockTxCount none) =
      .ok (placePrefilled cmpctblock.shorttxids.length 0 0 cmpctblock.prefilledtxn
        (List.replicate cmpctblock.blockTxCount none)) :=
  placeAt_eq_ok length_replicate_blockTxCount (Nat.zero_le 65536)

theorem placePrefilled_slots
    (h : placePrefilled cmpctblock.shorttxids.length 0 0 cmpctblock.prefilledtxn
      (List.replicate cmpctblock.blockTxCount none) = (.READ_STATUS_OK, slots)) :
    slots.length = cmpctblock.blockTxCount ∧
      (∀ p ∈ cmpctblock.prefilledPositions, p < cmpctblock.blockTxCount) ∧
      freeFrom slots 0 = cmpctblock.unoccupied := by
  obtain ⟨hlength, hrange, hfree⟩ := placePrefilled_ok length_replicate_blockTxCount h
  rw [length_replicate] at hlength hrange
  refine ⟨hlength, hrange, freeFrom_eq_unoccupied hlength fun p hp => ?_⟩
  rw [hfree, getElem?_replicate_of_lt hp]
  simp [prefilledPositions]

theorem mem_unoccupied {p : Nat} : p ∈ cmpctblock.unoccupied ↔
    p < cmpctblock.blockTxCount ∧ p ∉ cmpctblock.prefilledPositions := by
  simp [unoccupied]

end CBlockHeaderAndShortTxIDs

structure Mapped (cmpctblock : CBlockHeaderAndShortTxIDs) (shorttxids : ShortIdMap) : Prop where
  prefilled_nodup : cmpctblock.prefilledPositions.Nodup
  prefilled_lt : ∀ p ∈ cmpctblock.prefilledPositions, p < cmpctblock.blockTxCount
  /-- The short ids take the other places, in order. -/
  find_eq : ∀ (i : Nat) (id : UInt64), cmpctblock.shorttxids[i]? = some id →
    ∃ p, shorttxids.find id = some p ∧ cmpctblock.unoccupied[i]? = some p
  covered : ∀ p < cmpctblock.blockTxCount, p ∉ cmpctblock.prefilledPositions ↔
    ∃! i : Nat, ∃ id, cmpctblock.shorttxids[i]? = some id ∧ shorttxids.find id = some p

section Mapping

variable {lib : ShortIdLib} {cmpctblock : CBlockHeaderAndShortTxIDs} {slots : Slots}
  {shorttxids : ShortIdMap}

open CBlockHeaderAndShortTxIDs

variable (hcount : cmpctblock.blockTxCount ≤ 65535)
  (hplaced : placePrefilled cmpctblock.shorttxids.length 0 0 cmpctblock.prefilledtxn
    (List.replicate cmpctblock.blockTxCount none) = (.READ_STATUS_OK, slots))

include hcount hplaced

theorem mapAt_shortIds : mapAt lib slots 0 0 [] cmpctblock.shorttxids [] =
      .ok (mapShortIds lib slots 0 0 [] cmpctblock.shorttxids []) ∧
    ∀ m, mapShortIds lib slots 0 0 [] cmpctblock.shorttxids [] = some m →
      m = ShortIdMap.insertAll [] (cmpctblock.shorttxids.zip cmpctblock.unoccupied) := by
  obtain ⟨hslots, hrange, hfree⟩ := placePrefilled_slots hplaced
  have henough : cmpctblock.shorttxids.length ≤ (freeFrom slots (0 + 0)).length := by
    rw [hfree, length_unoccupied hrange]
  rw [← hfree]
  exact mapAt_eq_ok (hslots ▸ hcount) henough

variable (hmap : mapShortIds lib slots 0 0 [] cmpctblock.shorttxids [] = some shorttxids)
  (hlength : shorttxids.length = cmpctblock.shorttxids.length)

include hmap hlength

theorem shorttxids_eq :
    shorttxids = (cmpctblock.shorttxids.zip cmpctblock.unoccupied).reverse ∧
      (shorttxids.map Prod.fst).Nodup := by
  obtain ⟨-, hrange, -⟩ := placePrefilled_slots hplaced
  have hmany := length_unoccupied hrange
  have hinserted := (mapAt_shortIds hcount hplaced).2 shorttxids hmap
  have hgrown : (ShortIdMap.insertAll [] (cmpctblock.shorttxids.zip cmpctblock.unoccupied)).length =
      ([] : ShortIdMap).length + (cmpctblock.shorttxids.zip cmpctblock.unoccupied).length := by
    rw [← hinserted, hlength, length_zip, hmany, Nat.min_self, length_nil, Nat.zero_add]
  constructor
  · rw [hinserted, ShortIdMap.insertAll_eq hgrown, append_nil]
  · rw [hinserted]
    exact ShortIdMap.nodup_insertAll nodup_nil

theorem mapped_of_ok : Mapped cmpctblock shorttxids := by
  obtain ⟨-, hrange, -⟩ := placePrefilled_slots hplaced
  obtain ⟨heq, hkeys⟩ := shorttxids_eq hcount hplaced hmap hlength
  have hmany := length_unoccupied hrange
  have hfind : ∀ {i : Nat} {id : UInt64} {p : Nat}, cmpctblock.shorttxids[i]? = some id →
      cmpctblock.unoccupied[i]? = some p → shorttxids.find id = some p := by
    intro i id p hid hp
    apply ShortIdMap.find_of_mem hkeys
    rw [heq, mem_reverse]
    exact mem_of_getElem? (getElem?_zip_eq_some.mpr ⟨hid, hp⟩)
  have hplace : ∀ (i : Nat) (id : UInt64), cmpctblock.shorttxids[i]? = some id →
      ∃ p, shorttxids.find id = some p ∧ cmpctblock.unoccupied[i]? = some p := by
    intro i id hid
    obtain ⟨hi, -⟩ := List.getElem?_eq_some_iff.mp hid
    have hp := getElem?_eq_getElem (show i < cmpctblock.unoccupied.length by rwa [hmany])
    exact ⟨_, hfind hid hp, hp⟩
  have hnodup : cmpctblock.unoccupied.Nodup := nodup_range.filter _
  refine ⟨nodup_prefilledFrom 0 _, hrange, hplace, fun p hp => ⟨fun hfree => ?_, ?_⟩⟩
  · have hmem : p ∈ cmpctblock.unoccupied :=
      mem_unoccupied.mpr ⟨hp, hfree⟩
    obtain ⟨i, hi⟩ := mem_iff_getElem?.mp hmem
    obtain ⟨hlt, -⟩ := List.getElem?_eq_some_iff.mp hi
    have hid := getElem?_eq_getElem (show i < cmpctblock.shorttxids.length by rwa [← hmany])
    refine ⟨i, ⟨_, hid, hfind hid hi⟩, ?_⟩
    -- two ids in one place would be one place twice
    rintro j ⟨id, hid', hfound⟩
    obtain ⟨p', hp', hj⟩ := hplace j id hid'
    obtain rfl : p' = p := Option.some.inj (hp'.symm.trans hfound)
    exact ((getElem?_inj hlt hnodup).mp (hi.trans hj.symm)).symm
  · rintro ⟨i, ⟨id, hid, hfound⟩, -⟩
    obtain ⟨p', hp', hi⟩ := hplace i id hid
    obtain rfl : p' = p := Option.some.inj (hp'.symm.trans hfound)
    exact (mem_unoccupied.mp (mem_of_getElem? hi)).2

theorem find_lt : ∀ id p, shorttxids.find id = some p → p < cmpctblock.blockTxCount := by
  intro id p hfind
  have hmem := NodeEnv.ShortIdMap.mem_of_find hfind
  rw [(shorttxids_eq hcount hplaced hmap hlength).1, mem_reverse] at hmem
  exact (mem_unoccupied.mp (of_mem_zip hmem).2).1

end Mapping

/-! ### InitData -/

namespace NodeEnv

open CBlockHeaderAndShortTxIDs

variable (E : NodeEnv) {lib : ShortIdLib} {cmpctblock : CBlockHeaderAndShortTxIDs}

/-- **No access fails**: `InitData` is the function without accesses. -/
theorem initDataAt_eq (hcount : cmpctblock.blockTxCount ≤ 65535)
    (partialBlock : PartiallyDownloadedBlock)
    (vTxHashes extra_txn : List (UInt256 × CTransaction)) :
    E.initDataAt lib partialBlock cmpctblock vTxHashes extra_txn =
      E.initData lib partialBlock cmpctblock vTxHashes extra_txn := by
  unfold initDataAt initData
  split
  · rfl
  split
  · rfl
  cases hfresh : partialBlock.header.isNull && partialBlock.txn_available.isEmpty with
  | false => rfl
  | true =>
    rw [require_true, ok_bind, ok_bind, placeAt_prefilled, ok_bind]
    rcases hplaced : placePrefilled cmpctblock.shorttxids.length 0 0 cmpctblock.prefilledtxn
      (List.replicate cmpctblock.blockTxCount none) with ⟨status, slots⟩
    dsimp only
    split
    · rfl
    rename_i hstatus
    obtain rfl : status = .READ_STATUS_OK := by simpa using hstatus
    obtain ⟨hslots, -, -⟩ := placePrefilled_slots hplaced
    rw [(mapAt_shortIds hcount hplaced).1, ok_bind]
    cases hmap : mapShortIds lib slots 0 0 [] cmpctblock.shorttxids [] with
    | none => rfl
    | some shorttxids =>
      dsimp only
      split
      · rfl
      rename_i hlength
      have hfind := find_lt hcount hplaced hmap (by simpa using hlength)
      rw [← hslots] at hfind
      have hpool : ∀ (clashes : CTransaction → CTransaction → Bool)
          (pool : List (UInt256 × CTransaction)) (s : PoolSearch),
          s.txn_available.length = slots.length → s.have_txn.length = slots.length →
          searchAt clashes
              (CBlockHeaderAndShortTxIDs.getShortID lib cmpctblock.header cmpctblock.nonce)
              shorttxids pool s = .ok _ ∧ _ ∧ _ :=
        fun _ _ _ => searchAt_eq_ok hfind
      obtain ⟨hmempool, hslots', hhave'⟩ := hpool (fun _ _ => true) vTxHashes
        ⟨slots, List.replicate slots.length false, partialBlock.mempool_count⟩ rfl
        length_replicate
      obtain ⟨hextra, -, -⟩ := hpool (fun present tx => E.wtxid present != E.wtxid tx) extra_txn _
        hslots' hhave'
      rw [hmempool, ok_bind, hextra, ok_bind]
      rfl

theorem initData_stops {partialBlock : PartiallyDownloadedBlock}
    {vTxHashes extra_txn : List (UInt256 × CTransaction)} {stop : Stop}
    (h : E.initData lib partialBlock cmpctblock vTxHashes extra_txn = .error stop) :
    stop = .assertion "header.IsNull() && txn_available.empty()" := by
  unfold initData at h
  split at h
  · cases h
  split at h
  · cases h
  cases hfresh : partialBlock.header.isNull && partialBlock.txn_available.isEmpty with
  | false =>
    rw [hfresh] at h
    cases h
    rfl
  | true =>
    rw [hfresh, require_true, ok_bind] at h
    dsimp only at h
    split at h
    · cases h
    split at h
    · cases h
    · split at h <;> cases h

theorem blockTxCount_le_of_unserialize {deserialize : PopDecoder} {fAllowWitness : Bool}
    {bytes rest : Bytes}
    (h : (unserializeCompactBlock deserialize fAllowWitness).run bytes = .ok (cmpctblock, rest)) :
    cmpctblock.blockTxCount ≤ 65535 := by
  simp only [unserializeCompactBlock, StateT.run_bind, bind_eq_ok] at h
  obtain ⟨_, -, _, -, _, -, _, -, _, -, _, -, h⟩ := h
  split at h
  · cases h
  · rename_i hcount
    cases h
    exact Nat.not_lt.mp hcount

end NodeEnv

namespace Regtest

end Regtest

end VBitcoin
