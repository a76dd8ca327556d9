import VBitcoin.CompactBlock
import VBitcoin.GuardedRuns

/-!
**The mempool's vector of witness hashes** (`src/txmempool.cpp`, `src/blockencodings.cpp`) —
`addUnchecked` and `removeUnchecked` keep `vTxHashes` in step with `mapTx`; `clear` forgets it,
so that the vector keeps iterators of entries that are gone, and `InitData` reads them.
-/

namespace VBitcoin

open List

/-! ### The pool and its vector -/

/-- What the vector depends on of a `CTxMemPoolEntry`. -/
structure HashedEntry where
  tx : CTransaction
  vTxHashesIdx : Nat
  deriving DecidableEq, Repr

/-- An iterator of `mapTx` is the number of its node in the order of allocation. -/
structure HashedPool where
  mapTx : Nat → Option HashedEntry := fun _ => none
  nextNode : Nat := 0
  vTxHashes : List (UInt256 × Nat) := []

inductive PoolOperation where
  | addUnchecked (tx : CTransaction)
  | removeUnchecked (it : Nat)
  | clear
  deriving DecidableEq, Repr

namespace HashedPool

/-- `mapTx.insert(entry).first`: the entry that has the transaction's id, or a new one. -/
def insertPosition (E : NodeEnv) (tx : CTransaction) (s : HashedPool) : Nat :=
  ((List.range s.nextNode).find? fun it =>
    (s.mapTx it).any fun e => E.txid e.tx == E.txid tx).getD s.nextNode

def addUnchecked (E : NodeEnv) (tx : CTransaction) (s : HashedPool) : HashedPool :=
  let newit := s.insertPosition E tx
  let stored := ((s.mapTx newit).map HashedEntry.tx).getD tx
  { mapTx := Function.update s.mapTx newit (some ⟨stored, s.vTxHashes.length⟩)
    nextNode := max s.nextNode (newit + 1)
    vTxHashes := s.vTxHashes ++ [(E.wtxid stored, newit)] }

/-- The last element of the vector takes the place `k` of the removed entry `it`. -/
def swapOut (it k : Nat) (back : UInt256 × Nat) (moved : HashedEntry) (s : HashedPool) :
    HashedPool :=
  { s with
    mapTx := Function.update
      (Function.update s.mapTx back.2 (some { moved with vTxHashesIdx := k })) it none
    vTxHashes := (s.vTxHashes.set k back).dropLast }

/-- Nothing when an iterator is not of a live entry or a position is outside the vector. -/
def removeUnchecked (it : Nat) (s : HashedPool) : Option HashedPool := do
  let entry ← s.mapTx it
  if 1 < s.vTxHashes.length then
    let _ ← s.vTxHashes[entry.vTxHashesIdx]?
    let back ← s.vTxHashes.getLast?
    let moved ← s.mapTx back.2
    pure (s.swapOut it entry.vTxHashesIdx back moved)
  else
    pure { s with mapTx := Function.update s.mapTx it none, vTxHashes := [] }

/-- `_clear` empties the other containers and leaves `vTxHashes`. -/
def clear (s : HashedPool) : HashedPool := { s with mapTx := fun _ => none }

def step (E : NodeEnv) : PoolOperation → HashedPool → Option HashedPool
  | .addUnchecked tx, s => some (s.addUnchecked E tx)
  | .removeUnchecked it, s => s.removeUnchecked it
  | .clear, s => some s.clear

/-- What the scan of `InitData` reads; `none` is the read of an iterator that is not live. -/
def scanned (s : HashedPool) : List (UInt256 × Option CTransaction) :=
  s.vTxHashes.map fun element => (element.1, (s.mapTx element.2).map HashedEntry.tx)

/-! ### The vector mirrors the pool -/

/-- Position `i` of the vector is the element of an entry just when the entry has that index. -/
def Mirrors (E : NodeEnv) (s : HashedPool) : Prop :=
  ∀ i w it, s.vTxHashes[i]? = some (w, it) ↔ ∃ tx, s.mapTx it = some ⟨tx, i⟩ ∧ E.wtxid tx = w

/-- A transaction is added once, and the pool is cleared only when it is empty. -/
def Meets (E : NodeEnv) (s : HashedPool) : PoolOperation → Prop
  | .addUnchecked tx => ∀ it e, s.mapTx it = some e → E.txid e.tx ≠ E.txid tx
  | .removeUnchecked _ => True
  | .clear => ∀ it, s.mapTx it = none

structure Inv (E : NodeEnv) (s : HashedPool) : Prop where
  mirrors : s.Mirrors E
  allocated : ∀ it, s.nextNode ≤ it → s.mapTx it = none

variable {E : NodeEnv} {s s' : HashedPool} {tx : CTransaction} {it : Nat} {e : HashedEntry}

theorem Mirrors.element (h : s.Mirrors E) (hentry : s.mapTx it = some e) :
    s.vTxHashes[e.vTxHashesIdx]? = some (E.wtxid e.tx, it) :=
  (h e.vTxHashesIdx _ it).mpr ⟨e.tx, hentry, rfl⟩

theorem Mirrors.live (h : s.Mirrors E) {element : UInt256 × Nat} (hmem : element ∈ s.vTxHashes) :
    ∃ tx i, s.mapTx element.2 = some ⟨tx, i⟩ ∧ E.wtxid tx = element.1 := by
  obtain ⟨i, hi⟩ := List.mem_iff_getElem?.mp hmem
  obtain ⟨tx, hentry, hw⟩ := (h i element.1 element.2).mp hi
  exact ⟨tx, i, hentry, hw⟩

theorem Mirrors.scanned (h : s.Mirrors E) :
    ∀ read ∈ s.scanned, ∃ tx, read = (E.wtxid tx, some tx) := by
  intro read hread
  obtain ⟨element, hmem, rfl⟩ := mem_map.mp hread
  obtain ⟨tx, i, hentry, hw⟩ := h.live hmem
  exact ⟨tx, by rw [hentry, hw, Option.map_some]⟩

/-! ### One operation -/

theorem insertPosition_of_new (hnew : s.Meets E (.addUnchecked tx)) :
    s.insertPosition E tx = s.nextNode := by
  have hnone : ((List.range s.nextNode).find? fun it =>
      (s.mapTx it).any fun e => E.txid e.tx == E.txid tx) = none := by
    refine List.find?_eq_none.mpr fun it _ hany => ?_
    obtain ⟨e, he, htxid⟩ := (Option.any_eq_true _ _).mp hany
    exact hnew it e he (beq_iff_eq.mp htxid)
  rw [insertPosition, hnone, Option.getD_none]

/-- A transaction that is in the pool is found there. -/
theorem Inv.insertPosition_present (h : s.Inv E) (hentry : s.mapTx it = some e)
    (htxid : E.txid e.tx = E.txid tx) : ∃ e', s.mapTx (s.insertPosition E tx) = some e' := by
  have hlt : it < s.nextNode := by
    by_contra hge
    rw [h.allocated it (Nat.not_lt.mp hge)] at hentry
    exact Option.some_ne_none e hentry.symm
  cases hfind : (List.range s.nextNode).find? fun it =>
      (s.mapTx it).any fun e => E.txid e.tx == E.txid tx with
  | none =>
    refine absurd ?_ (List.find?_eq_none.mp hfind it (List.mem_range.mpr hlt))
    rw [hentry, Option.any_some, htxid, beq_self_eq_true]
  | some found =>
    have hany := List.find?_some hfind
    obtain ⟨e', he', -⟩ := (Option.any_eq_true _ _).mp hany
    rw [insertPosition, hfind]
    exact ⟨e', he'⟩

theorem Inv.addUnchecked (h : s.Inv E) (hnew : s.Meets E (.addUnchecked tx)) :
    (s.addUnchecked E tx).Inv E := by
  have hfresh : s.mapTx s.nextNode = none := h.allocated s.nextNode (Nat.le_refl _)
  rw [HashedPool.addUnchecked, insertPosition_of_new hnew, hfresh]
  constructor
  · intro i w it
    have hold := h.mirrors i w it
    grind
  · intro it hit
    have hold := h.allocated it
    grind

theorem Mirrors.swapOut (h : s.Mirrors E) {back : UInt256 × Nat} {moved : HashedEntry}
    (hentry : s.mapTx it = some e) (hback : s.vTxHashes.getLast? = some back)
    (hmoved : s.mapTx back.2 = some moved) : (s.swapOut it e.vTxHashesIdx back moved).Mirrors E := by
  have hlast : s.vTxHashes[s.vTxHashes.length - 1]? = some back := by
    rw [← List.getLast?_eq_getElem?, hback]
  obtain ⟨txb, htxb, hwb⟩ := (h _ back.1 back.2).mp hlast
  obtain rfl := Option.some.inj (hmoved.symm.trans htxb)
  have hk := h.element hentry
  intro i w other
  have hold := h i w other
  simp only [HashedPool.swapOut, List.getElem?_dropLast, List.length_set, List.getElem?_set]
  -- the entry that is removed, the one whose element moves into the gap, and any other
  by_cases hit : other = it
  · subst hit
    grind
  · by_cases hib : other = back.2
    · subst hib
      grind
    · simp only [Function.update_of_ne hit, Function.update_of_ne hib]
      grind

/-- In a mirrored pool every live entry can be removed, and what is left is mirrored. -/
theorem Mirrors.removeUnchecked (h : s.Mirrors E) (hentry : s.mapTx it = some e) :
    ∃ s', s.removeUnchecked it = some s' ∧ s'.Mirrors E ∧ s'.nextNode = s.nextNode ∧
      ∀ other, s.mapTx other = none → s'.mapTx other = none := by
  have hk := h.element hentry
  have hne : s.vTxHashes ≠ [] := fun hnil => by simp [hnil] at hk
  have hback := List.getLast?_eq_some_getLast hne
  obtain ⟨txb, i, hmoved, -⟩ := h.live (List.getLast_mem hne)
  by_cases hlong : 1 < s.vTxHashes.length
  · refine ⟨_, ?_, h.swapOut hentry hback hmoved, rfl, ?_⟩
    · simp [HashedPool.removeUnchecked, hentry, hlong, hk, hback, hmoved]
    · intro other hother
      simp only [HashedPool.swapOut]
      grind
  · refine ⟨{ s with mapTx := Function.update s.mapTx it none, vTxHashes := [] }, ?_, ?_, rfl, ?_⟩
    · simp [HashedPool.removeUnchecked, hentry, hlong]
    · intro i w other
      have hold := h i w other
      grind
    · intro other hother
      grind

theorem removeUnchecked_of_none (h : s.mapTx it = none) : s.removeUnchecked it = none := by
  simp [HashedPool.removeUnchecked, h]

theorem Inv.step {event : PoolOperation} (h : s.Inv E) (hmeets : s.Meets E event)
    (hstep : HashedPool.step E event s = some s') : s'.Inv E := by
  cases event with
  | addUnchecked tx =>
    obtain rfl := Option.some.inj hstep
    exact h.addUnchecked hmeets
  | removeUnchecked it =>
    cases hentry : s.mapTx it with
    | none => simp [HashedPool.step, removeUnchecked_of_none hentry] at hstep
    | some e =>
      obtain ⟨next, hnext, hmirrors, hnode, hnone⟩ := h.mirrors.removeUnchecked hentry
      obtain rfl := Option.some.inj (hnext.symm.trans hstep)
      refine ⟨hmirrors, fun other hother => hnone other (h.allocated other ?_)⟩
      rwa [← hnode]
  | clear =>
    obtain rfl := Option.some.inj hstep
    have hsame : s.clear = s := by
      rw [clear, ← (funext hmeets : s.mapTx = fun _ => none)]
    rw [hsame]
    exact h

/-- A second element for one entry, or an element whose entry is gone. -/
theorem Inv.step_bad {event : PoolOperation} (h : s.Inv E) (hviolates : ¬ s.Meets E event) :
    ∃ s', HashedPool.step E event s = some s' ∧ ¬ s'.Mirrors E := by
  cases event with
  | addUnchecked tx =>
    simp only [Meets, not_forall, not_not] at hviolates
    obtain ⟨it, e, hentry, htxid⟩ := hviolates
    obtain ⟨e', he'⟩ := h.insertPosition_present hentry htxid
    refine ⟨_, rfl, fun hmirrors => ?_⟩
    have hold := h.mirrors.element he'
    have hnew := hmirrors e'.vTxHashesIdx (E.wtxid e'.tx) (s.insertPosition E tx)
    simp only [HashedPool.addUnchecked, he'] at hnew
    grind
  | removeUnchecked it => exact absurd trivial hviolates
  | clear =>
    simp only [Meets, not_forall] at hviolates
    obtain ⟨it, hsome⟩ := hviolates
    obtain ⟨e, hentry⟩ := Option.ne_none_iff_exists'.mp hsome
    refine ⟨_, rfl, fun hmirrors => ?_⟩
    obtain ⟨tx, hgone, -⟩ := (hmirrors _ _ _).mp (h.mirrors.element hentry)
    exact Option.some_ne_none _ hgone.symm

/-! ### Whole runs -/

open GuardedRuns

/-- **The vector mirrors the pool just when no transaction is added twice and only an empty pool is
    cleared**; then `InitData` reads live entries only, and removals go right. -/
theorem hashVector_mirrors_iff (E : NodeEnv) (events : List PoolOperation) :
    (Always (step E) (Mirrors E) {} events ↔ AllMeet (step E) (Meets E) {} events) ∧
      ∀ s : HashedPool, s.Mirrors E →
        (∀ read ∈ s.scanned, ∃ tx, read = (E.wtxid tx, some tx)) ∧
        ∀ it, s.removeUnchecked it = none ↔ s.mapTx it = none := by
  constructor
  · have hnew : Inv E {} := ⟨fun i w it => by simp, fun _ _ => rfl⟩
    exact always_iff_meets (fun s (hs : Inv E s) => hs.mirrors)
      (fun s event s' hs _ hmeets hstep => hs.step hmeets hstep)
      (fun s event hs _ hviolates => hs.step_bad hviolates) hnew fun _ _ => trivial
  · intro s hs
    refine ⟨hs.scanned, fun it => ⟨fun hremove => ?_, removeUnchecked_of_none⟩⟩
    cases hentry : s.mapTx it with
    | none => rfl
    | some e =>
      obtain ⟨s', hsome, -⟩ := hs.removeUnchecked hentry
      exact absurd (hsome.symm.trans hremove) (Option.some_ne_none s')

end HashedPool

namespace Regtest

open GuardedRuns HashedPool

/-- The pool is cleared with one transaction in it: the next scan reads a dangling iterator. -/
theorem cleared_pool_is_scanned :
    ¬ Always (HashedPool.step env) (HashedPool.Mirrors env) {}
        [.addUnchecked (payment 1), .clear] ∧
      (run (HashedPool.step env) [.addUnchecked (payment 1), .clear] {}).map HashedPool.scanned =
        some [(env.wtxid (payment 1), none)] := by
  refine ⟨fun h => ?_, by decide +kernel⟩
  have hmirrors : (({} : HashedPool).addUnchecked env (payment 1)).clear.Mirrors env := h.run rfl
  obtain ⟨tx, hgone, -⟩ := (hmirrors 0 (env.wtxid (payment 1)) 0).mp (by decide +kernel)
  exact Option.some_ne_none _ hgone.symm

end Regtest

end VBitcoin
