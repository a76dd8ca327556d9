import VBitcoin.Regtest

/-!
**Which blocks pass the first test of `ConnectBlock`** — the calls of `CheckBlock` and
`ContextualCheckBlock` are joined by `&&` on their failures, so that a block is stopped only
when both validators reject it (`recheckBlock_eq_ok`).
-/

namespace VBitcoin

namespace NodeEnv

variable (E : NodeEnv)

theorem recheckBlock_eq_ok (block : CBlock) (pprev : Option CBlockIndex) (fJustCheck : Bool) :
    accepted (E.recheckBlock block pprev fJustCheck) =
      (accepted (E.checkBlock block (!fJustCheck)) ||
        accepted (E.contextualCheckBlock block pprev true)) := by
  unfold recheckBlock
  cases hcheck : E.checkBlock block (!fJustCheck) with
  | ok checked => rfl
  | error stop =>
    obtain ⟨result, reason, debug, rfl, -⟩ := E.checkBlock_stops block (!fJustCheck) stop hcheck
    cases hcontext : E.contextualCheckBlock block pprev true with
    | ok u => rfl
    | error stop =>
      simp only [accepted_error, Bool.or_false]
      split <;> first | rfl | contradiction

theorem connectBlock_accepted (block : CBlock) (pindex : CBlockIndex) (view : CCoinsViewCache)
    (tip : Option CBlockIndex) (fJustCheck : Bool) :
    accepted (E.connectBlock block pindex view tip fJustCheck) =
      (pindex.getBlockHash == E.blockHash block.header &&
        (accepted (E.checkBlock block (!fJustCheck)) ||
          accepted (E.contextualCheckBlock block pindex.pprev true)) &&
        accepted (E.applyBlock block pindex view tip fJustCheck)) := by
  rw [← E.recheckBlock_eq_ok]
  unfold connectBlock
  cases pindex.getBlockHash == E.blockHash block.header with
  | false => rfl
  | true =>
    cases E.recheckBlock block pindex.pprev fJustCheck with
    | error stop => rfl
    | ok u => rfl

/-- After genesis, applied only if both validators accept. -/
def AppliedOnlyIfChecked (block : CBlock) (pindex : CBlockIndex) (view : CCoinsViewCache)
    (tip : Option CBlockIndex) (fJustCheck : Bool) : Prop :=
  accepted (E.connectBlock block pindex view tip fJustCheck) = true →
    E.blockHash block.header ≠ E.consensus.hashGenesisBlock →
      accepted (E.checkBlock block (!fJustCheck)) = true ∧
        accepted (E.contextualCheckBlock block pindex.pprev true) = true

/-- **When the contract is kept**: for genesis, if the validators agree, or if the block is stopped
    by the entry or by the rules about coins. -/
theorem appliedOnlyIfChecked_iff (block : CBlock) (pindex : CBlockIndex) (view : CCoinsViewCache)
    (tip : Option CBlockIndex) (fJustCheck : Bool) :
    E.AppliedOnlyIfChecked block pindex view tip fJustCheck ↔
      E.blockHash block.header = E.consensus.hashGenesisBlock ∨
        accepted (E.checkBlock block (!fJustCheck)) =
          accepted (E.contextualCheckBlock block pindex.pprev true) ∨
        (pindex.getBlockHash == E.blockHash block.header) = false ∨
        accepted (E.applyBlock block pindex view tip fJustCheck) = false := by
  unfold AppliedOnlyIfChecked
  rw [E.connectBlock_accepted]
  by_cases hgenesis : E.blockHash block.header = E.consensus.hashGenesisBlock
  · simp [hgenesis]
  · cases accepted (E.checkBlock block (!fJustCheck)) <;>
      cases accepted (E.contextualCheckBlock block pindex.pprev true) <;>
      cases (pindex.getBlockHash == E.blockHash block.header) <;>
      cases accepted (E.applyBlock block pindex view tip fJustCheck) <;>
      simp [hgenesis]

end NodeEnv

/-! ### A block with two coinbases -/

namespace Regtest

/-- A block after genesis whose second transaction is a coinbase too. -/
def twoCoinbases : CBlock :=
  blockOn [genesis] [coinbase [0x51, 0x00] (50 * COIN), coinbase [0x51, 0x01] MAX_MONEY]

def twoCoinbasesIndex : CBlockIndex := env.blockIndex twoCoinbases [genesis]

/-- `CheckBlock` rejects it, `ContextualCheckBlock` accepts it: it is connected. -/
theorem twoCoinbases_applied_unchecked :
    ¬ env.AppliedOnlyIfChecked twoCoinbases twoCoinbasesIndex (viewOf [genesis])
      twoCoinbasesIndex.pprev false := by
  intro h
  have happlied : accepted (env.connectBlock twoCoinbases twoCoinbasesIndex (viewOf [genesis])
      twoCoinbasesIndex.pprev false) = true := by decide +kernel
  have hrejected : accepted (env.checkBlock twoCoinbases true) = false := by decide +kernel
  have hchecked := (h happlied (by decide +kernel)).1
  rw [Bool.not_false, hrejected] at hchecked
  cases hchecked

end Regtest

end VBitcoin
