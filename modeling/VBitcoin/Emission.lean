import VBitcoin.ArithUint256
import VBitcoin.MinerLimits
import VBitcoin.StepFunctions

/-!
**What blocks may emit** — `GetSubsidyMultiplier`, `GetBlockSubsidy` and the payouts of
`getPopRewards`, in the integer types of the code.  The halvings are counted by a signed
division that truncates, and a shift follows only when the count is positive.  A payout narrows
its multiplier to the `uint32_t` of the overload that C++ takes.
-/

namespace VBitcoin

open StepFunctions List

namespace NodeEnv

variable (E : NodeEnv)

/-! ### The code -/

def shiftRightInt64 (value shift : Int) : Run Int :=
  if 0 ≤ shift ∧ shift < 64 then .ok (value / 2 ^ shift.toNat) else .error (.undefined "shift")

def subsidyMultiplier (nHeight : Int) : Run Int := do
  require (E.consensus.nSubsidyHalvingInterval != 0) (.undefined "division by zero")
  let halvings := (nHeight - 4183200).tdiv E.consensus.nSubsidyHalvingInterval
  if 64 ≤ halvings then pure 0
  else
    let nSubsidy :=
      match subsidyPeriods.find? fun period => nHeight < period.1 with
      | some period => period.2
      | none => 1504471080 * COIN / 1000000000
    if 0 < halvings then shiftRightInt64 nSubsidy halvings else pure nSubsidy

variable (nHeight : Nat)

def blockSubsidy : Run Int :=
  if E.isPopActive nHeight then do
    let multiplier ← E.subsidyMultiplier nHeight
    pure (multiplier.tdiv 2)
  else do
    require (E.consensus.nSubsidyHalvingInterval != 0) (.undefined "division by zero")
    let halvings := (nHeight : Int).tdiv E.consensus.nSubsidyHalvingInterval
    if 64 ≤ halvings then pure 0 else shiftRightInt64 (50 * COIN) halvings

/-! ### The multiplier as a step function -/

def unhalved : Int := valueAt subsidyPeriods 150447108 nHeight

theorem unhalved_bounds : 0 ≤ unhalved nHeight ∧ unhalved nHeight ≤ 7 * COIN := by
  have hall : ∀ value ∈ subsidyPeriods.map Prod.snd ++ [150447108], 0 ≤ value ∧ value ≤ 7 * COIN := by
    decide
  exact hall _ (valueAt_mem subsidyPeriods 150447108 nHeight)

theorem unhalved_eq :
    (match subsidyPeriods.find? fun period => nHeight < period.1 with
      | some period => period.2
      | none => 1504471080 * COIN / 1000000000) = unhalved nHeight := by
  unfold unhalved valueAt
  cases subsidyPeriods.find? fun period => nHeight < period.1 with
  | none => decide
  | some period => rfl

theorem getSubsidyMultiplier_eq : E.getSubsidyMultiplier nHeight =
    unhalved nHeight / 2 ^ ((nHeight - 4183200) / E.consensus.nSubsidyHalvingInterval) := by
  generalize hn : (nHeight - 4183200) / E.consensus.nSubsidyHalvingInterval = halvings
  simp only [getSubsidyMultiplier, hn]
  split
  · rename_i hmany
    have hbounds := unhalved_bounds nHeight
    have hpow : (2 : Int) ^ 64 ≤ 2 ^ halvings := pow_le_pow_right₀ (by decide) hmany
    have hcoin : COIN = 100000000 := rfl
    exact (Int.ediv_eq_zero_of_lt hbounds.1 (by omega)).symm
  · exact congrArg (· / 2 ^ halvings) (unhalved_eq nHeight)

theorem getSubsidyMultiplier_nonneg : 0 ≤ E.getSubsidyMultiplier nHeight := by
  rw [getSubsidyMultiplier_eq]
  exact Int.ediv_nonneg (unhalved_bounds nHeight).1 (pow_nonneg (by decide) _)

theorem getSubsidyMultiplier_le : E.getSubsidyMultiplier nHeight ≤ 7 * COIN := by
  rw [getSubsidyMultiplier_eq]
  exact (Int.ediv_le_self _ (unhalved_bounds nHeight).1).trans (unhalved_bounds nHeight).2

theorem ediv_two_pow_le {a b : Int} {k l : Nat} (hb : 0 ≤ b) (hba : b ≤ a) (hkl : k ≤ l) :
    b / 2 ^ l ≤ a / 2 ^ k := by
  have hpow : (2 : Int) ^ k ≤ 2 ^ l := pow_le_pow_right₀ (by decide) hkl
  have hnonneg : 0 ≤ b / 2 ^ l := Int.ediv_nonneg hb (pow_nonneg (by decide) _)
  apply (Int.le_ediv_iff_mul_le (pow_pos (by decide) k)).mpr
  calc
    b / 2 ^ l * 2 ^ k ≤ b / 2 ^ l * 2 ^ l := mul_le_mul_of_nonneg_left hpow hnonneg
    _ ≤ b := Int.ediv_mul_le _ (pow_pos (by decide) l).ne'
    _ ≤ a := hba

theorem unhalved_antitone : Antitone unhalved := valueAt_antitone (by decide)

/-- **The multiplier never rises.** -/
theorem getSubsidyMultiplier_antitone : Antitone E.getSubsidyMultiplier := by
  intro h h' hle
  rw [getSubsidyMultiplier_eq, getSubsidyMultiplier_eq]
  exact ediv_two_pow_le (unhalved_bounds h').1 (unhalved_antitone hle)
    (Nat.div_le_div_right (Nat.sub_le_sub_right hle _))

/-! ### The total -/

theorem sum_before_halvings :
    ∑ h ∈ Finset.range 4183200, E.getSubsidyMultiplier h = 1739700000000000 := by
  have hchain : (0 :: subsidyPeriods.map Prod.fst).IsChain (· ≤ ·) := by decide
  have hperiods := sum_valueAt (150447108 : Int) hchain
  have hend : lastEnd 0 subsidyPeriods = 4183200 := rfl
  have htotal : total 0 subsidyPeriods = 1739700000000000 := by decide
  rw [hend, htotal, Nat.Ico_zero_eq_range] at hperiods
  rw [← hperiods]
  apply Finset.sum_congr rfl
  intro h hh
  have hbefore : h - 4183200 = 0 := Nat.sub_eq_zero_of_le (Finset.mem_range.mp hh).le
  rw [getSubsidyMultiplier_eq, hbefore, Nat.zero_div, pow_zero, Int.ediv_one, unhalved]

theorem getSubsidyMultiplier_after (n : Nat) : E.getSubsidyMultiplier (4183200 + n) =
    ((150447108 / 2 ^ (n / E.consensus.nSubsidyHalvingInterval) : Nat) : Int) := by
  have hfinal : unhalved (4183200 + n) = 150447108 := by
    apply valueAt_eq_final
    have hends : ∀ period ∈ subsidyPeriods, period.1 ≤ 4183200 := by decide
    exact fun period hperiod => (hends period hperiod).trans (Nat.le_add_right _ _)
  rw [getSubsidyMultiplier_eq, hfinal, Nat.add_sub_cancel_left]
  push_cast
  rfl

/-- **The total of the multipliers** of any number of blocks. -/
theorem sum_getSubsidyMultiplier_le (hpos : 0 < E.consensus.nSubsidyHalvingInterval) (N : Nat) :
    ∑ h ∈ Finset.range N, E.getSubsidyMultiplier h ≤
      1739700000000000 + E.consensus.nSubsidyHalvingInterval * 300894216 := by
  have hlater := sum_halvings_le 150447108 hpos N
  calc
    ∑ h ∈ Finset.range N, E.getSubsidyMultiplier h
      ≤ ∑ h ∈ Finset.range (4183200 + N), E.getSubsidyMultiplier h :=
        Finset.sum_le_sum_of_subset_of_nonneg
          (Finset.range_subset_range.mpr (Nat.le_add_left _ _))
          fun h _ _ => E.getSubsidyMultiplier_nonneg h
    _ = 1739700000000000 + ∑ n ∈ Finset.range N, E.getSubsidyMultiplier (4183200 + n) := by
        rw [Finset.sum_range_add, sum_before_halvings]
    _ ≤ 1739700000000000 + E.consensus.nSubsidyHalvingInterval * 300894216 := by
        apply add_le_add_right
        simp only [getSubsidyMultiplier_after]
        exact_mod_cast hlater

/-! ### The code computes the multiplier -/

theorem shiftRightInt64_natCast (value : Int) {shift : Nat} (h : shift < 64) :
    shiftRightInt64 value shift = .ok (value / 2 ^ shift) := by
  rw [shiftRightInt64, if_pos ⟨Int.natCast_nonneg shift, by omega⟩, Int.toNat_natCast]

/-- **No shift is undefined**, and the multiplier is the one above. -/
theorem subsidyMultiplier_eq_ok (hpos : 0 < E.consensus.nSubsidyHalvingInterval) (nHeight : Nat) :
    E.subsidyMultiplier nHeight = .ok (E.getSubsidyMultiplier nHeight) := by
  have hinterval : (E.consensus.nSubsidyHalvingInterval != 0) = true := bne_iff_ne.mpr hpos.ne'
  have hvalue : (match subsidyPeriods.find? fun period => ((nHeight : Int) < period.1 : Bool) with
      | some period => period.2
      | none => 1504471080 * COIN / 1000000000) = unhalved nHeight := by
    simp only [Nat.cast_lt]
    exact unhalved_eq nHeight
  simp only [subsidyMultiplier, hinterval, require_true, ok_bind]
  rcases Nat.lt_or_ge nHeight 4183200 with hbefore | hafter
  · have hcount : ((nHeight : Int) - 4183200).tdiv E.consensus.nSubsidyHalvingInterval ≤ 0 := by
      rw [← neg_sub, Int.neg_tdiv]
      exact neg_nonpos.mpr (Int.tdiv_nonneg (by omega) (Int.natCast_nonneg _))
    have hzero : nHeight - 4183200 = 0 := Nat.sub_eq_zero_of_le hbefore.le
    rw [if_neg (by omega), if_neg (by omega), getSubsidyMultiplier_eq, hzero, Nat.zero_div,
      pow_zero, Int.ediv_one]
    exact congrArg Except.ok hvalue
  · obtain ⟨n, rfl⟩ := Nat.exists_eq_add_of_le hafter
    have hcount : (((4183200 + n : Nat) : Int) - 4183200).tdiv
        E.consensus.nSubsidyHalvingInterval =
          ((n / E.consensus.nSubsidyHalvingInterval : Nat) : Int) := by
      rw [show ((4183200 + n : Nat) : Int) - 4183200 = n by omega, Int.ofNat_tdiv]
    rw [hcount]
    generalize hn : n / E.consensus.nSubsidyHalvingInterval = halvings
    have hmultiplier : E.getSubsidyMultiplier (4183200 + n) =
        unhalved (4183200 + n) / 2 ^ halvings := by
      rw [getSubsidyMultiplier_eq, Nat.add_sub_cancel_left, hn]
    by_cases hmany : 64 ≤ halvings
    · have hzero : E.getSubsidyMultiplier (4183200 + n) = 0 := by
        simp only [getSubsidyMultiplier, Nat.add_sub_cancel_left, hn, if_pos hmany]
      rw [if_pos (by omega), hzero]
      rfl
    · rw [if_neg (by omega), hmultiplier]
      split
      · rw [shiftRightInt64_natCast _ (by omega)]
        exact congrArg (fun value => Except.ok (value / 2 ^ halvings)) hvalue
      · rename_i hnone
        obtain rfl : halvings = 0 := by omega
        rw [pow_zero, Int.ediv_one]
        exact congrArg Except.ok hvalue

theorem blockSubsidy_of_popActive (hpos : 0 < E.consensus.nSubsidyHalvingInterval) {nHeight : Nat}
    (hactive : E.isPopActive nHeight = true) :
    E.blockSubsidy nHeight = .ok (E.getSubsidyMultiplier nHeight / 2) := by
  rw [blockSubsidy, if_pos hactive, subsidyMultiplier_eq_ok E hpos, ok_bind,
    Int.tdiv_eq_ediv_of_nonneg (E.getSubsidyMultiplier_nonneg nHeight)]
  rfl

/-- **Emission falls and is capped** for all heights of an `int`: the multiplier is defined and
    never rises, its total stays below the supply, and the miner gets half of it where PoP is
    active. -/
theorem emission_capped (hmain : E.consensus.nSubsidyHalvingInterval = 1050000) :
    (∀ h ≤ INT_MAX, E.subsidyMultiplier h = .ok (E.getSubsidyMultiplier h) ∧
      0 ≤ E.getSubsidyMultiplier h) ∧
    (∀ h h' : Nat, h ≤ h' → h' ≤ INT_MAX →
      E.getSubsidyMultiplier h' ≤ E.getSubsidyMultiplier h) ∧
    (∀ N : Nat, ∑ h ∈ Finset.range N, E.getSubsidyMultiplier h ≤ MAX_MONEY) ∧
    (∀ h ≤ INT_MAX, E.isPopActive h = true →
      E.blockSubsidy h = .ok (E.getSubsidyMultiplier h / 2)) := by
  have hpos : 0 < E.consensus.nSubsidyHalvingInterval := by rw [hmain]; decide
  refine ⟨?_, ?_, ?_, ?_⟩
  · intro h _
    exact ⟨E.subsidyMultiplier_eq_ok hpos h, E.getSubsidyMultiplier_nonneg h⟩
  · intro h h' hle _
    exact E.getSubsidyMultiplier_antitone hle
  · intro N
    have htotal := E.sum_getSubsidyMultiplier_le hpos N
    have hmoney : MAX_MONEY = 2100000000000000 := rfl
    rw [hmain] at htotal
    omega
  · intro h _ hactive
    exact E.blockSubsidy_of_popActive hpos hactive

end NodeEnv

def mainIntervalEnv : NodeEnv :=
  { Regtest.env with
    consensus := { Regtest.env.consensus with nSubsidyHalvingInterval := 1050000 } }

theorem mainInterval_emission_capped :
    (∀ h ≤ INT_MAX, mainIntervalEnv.subsidyMultiplier h =
        .ok (mainIntervalEnv.getSubsidyMultiplier h) ∧
      0 ≤ mainIntervalEnv.getSubsidyMultiplier h) ∧
    (∀ h h' : Nat, h ≤ h' → h' ≤ INT_MAX →
      mainIntervalEnv.getSubsidyMultiplier h' ≤ mainIntervalEnv.getSubsidyMultiplier h) ∧
    (∀ N : Nat, ∑ h ∈ Finset.range N, mainIntervalEnv.getSubsidyMultiplier h ≤ MAX_MONEY) ∧
    (∀ h ≤ INT_MAX, mainIntervalEnv.isPopActive h = true →
      mainIntervalEnv.blockSubsidy h = .ok (mainIntervalEnv.getSubsidyMultiplier h / 2)) :=
  mainIntervalEnv.emission_capped rfl

namespace NodeEnv

variable (E : NodeEnv)

/-! ### Payouts -/

variable (tip : CBlockIndex)

/-- `(coeff * GetSubsidyMultiplier(tip.nHeight + 1) / 2) / COIN`. -/
def payoutOf (coeff : Nat) : Run UInt256 := do
  let multiplier ← E.subsidyMultiplier (tip.nHeight + 1 : Nat)
  let product := ArithUint256.mulUInt32 (BitVec.ofNat 256 coeff)
    (UInt32.ofNat (multiplier % 2 ^ 32).toNat)
  let half ← ArithUint256.div product 2
  ArithUint256.div half (BitVec.ofInt 256 COIN)

variable (result : PoPRewards)

def payReward (reward : Bytes × Nat) : Run PoPRewards := do
  let payout ← E.payoutOf tip reward.2
  if 0 < payout.toNat then do
    require (decide ((payout.toNat : Int) ≤ INT64_MAX)) (.assertion "overflow!")
    pure (result.insert scriptLess reward.1 (ArithUint256.getLow64 payout))
  else pure result

def popRewards : Run PoPRewards :=
  if !E.paramsPopActive tip.nHeight || tip.nHeight < E.pop.endorsementSettlementInterval ||
      tip.nHeight < E.pop.popPayoutDelay then pure OrderedMap.empty
  else do
    require (E.pop.setState tip.getBlockHash) (.assertion "setState")
    match E.pop.getPopPayout tip.getBlockHash with
    | none => throw (.assertion "getPopPayout")
    | some rewards => rewards.foldlM (E.payReward tip) OrderedMap.empty

variable {coeff : Nat} {reward : Bytes × Nat}

/-- The multiplier fits in 32 bits, the product in 256. -/
theorem payoutOf_eq_ok (hpos : 0 < E.consensus.nSubsidyHalvingInterval) (tip : CBlockIndex)
    (hcoeff : coeff < 2 ^ 64) :
    ∃ payout, E.payoutOf tip coeff = .ok payout ∧ payout.toNat = E.popPayout tip coeff := by
  have hnonneg := E.getSubsidyMultiplier_nonneg (tip.nHeight + 1)
  have hle := E.getSubsidyMultiplier_le (tip.nHeight + 1)
  rw [payoutOf, E.subsidyMultiplier_eq_ok hpos, ok_bind, popPayout]
  generalize E.getSubsidyMultiplier (tip.nHeight + 1) = multiplier at *
  obtain ⟨m, rfl⟩ := Int.eq_ofNat_of_zero_le hnonneg
  have hcoin : COIN = 100000000 := rfl
  have hm : m ≤ 700000000 := by omega
  have hnarrow : (UInt32.ofNat ((m : Int) % 2 ^ 32).toNat).toNat = m := by
    have hsame : (m : Int) % 2 ^ 32 = m := Int.emod_eq_of_lt hnonneg (by omega)
    rw [hsame, Int.toNat_natCast, UInt32.toNat_ofNat', Nat.mod_eq_of_lt (by omega)]
  have hcoeff' : (BitVec.ofNat 256 coeff).toNat = coeff := by
    rw [BitVec.toNat_ofNat, Nat.mod_eq_of_lt (by omega)]
  have hproduct : (ArithUint256.mulUInt32 (BitVec.ofNat 256 coeff)
      (UInt32.ofNat ((m : Int) % 2 ^ 32).toNat)).toNat = coeff * m := by
    have hfits : m * coeff < 2 ^ 256 := calc
      m * coeff ≤ 700000000 * 2 ^ 64 := Nat.mul_le_mul hm hcoeff.le
      _ < 2 ^ 256 := by decide
    rw [ArithUint256.toNat_mulUInt32, hnarrow, hcoeff', Nat.mod_eq_of_lt hfits, Nat.mul_comm]
  obtain ⟨half, hhalf, hhalfValue⟩ := ArithUint256.div_eq_ok
    (a := ArithUint256.mulUInt32 (BitVec.ofNat 256 coeff)
      (UInt32.ofNat ((m : Int) % 2 ^ 32).toNat)) (b := 2) (by decide)
  obtain ⟨payout, hpayout, hvalue⟩ := ArithUint256.div_eq_ok
    (a := half) (b := BitVec.ofInt 256 COIN) (by decide)
  refine ⟨payout, ?_, ?_⟩
  · dsimp only
    rw [hhalf, ok_bind, hpayout]
  · rw [hvalue, hhalfValue, hproduct, Int.toNat_natCast]
    rfl

theorem popPayout_le (coeff : Nat) : E.popPayout tip coeff ≤ 7 * coeff / 2 := by
  have hle := E.getSubsidyMultiplier_le (tip.nHeight + 1)
  have hcoin : COIN = 100000000 := rfl
  have hmultiplier : (E.getSubsidyMultiplier (tip.nHeight + 1)).toNat ≤ 700000000 := by omega
  calc
    E.popPayout tip coeff ≤ coeff * 700000000 / 2 / 100000000 :=
      Nat.div_le_div_right (Nat.div_le_div_right (Nat.mul_le_mul_left coeff hmultiplier))
    _ = 7 * coeff / 2 := by omega

/-- The rewards with one more: zero payouts are left out. -/
def withReward (reward : Bytes × Nat) : PoPRewards :=
  if 0 < E.popPayout tip reward.2 then
    result.insert scriptLess reward.1 (E.popPayout tip reward.2) else result

theorem popPayout_le_int64 (hcoeff : 7 * coeff / 2 < 2 ^ 63) :
    (E.popPayout tip coeff : Int) ≤ INT64_MAX := by
  have hle := E.popPayout_le tip coeff
  rw [INT64_MAX]
  omega

/-- **The overflow assertion never fires.** -/
theorem payReward_eq_ok (hpos : 0 < E.consensus.nSubsidyHalvingInterval) (tip : CBlockIndex)
    (result : PoPRewards) (hcoeff : 7 * reward.2 / 2 < 2 ^ 63) :
    E.payReward tip result reward = .ok (E.withReward tip result reward) := by
  obtain ⟨payout, hpayout, hvalue⟩ :=
    E.payoutOf_eq_ok hpos tip (show reward.2 < 2 ^ 64 by omega)
  have hfits : ((payout.toNat : Int) ≤ INT64_MAX) := by
    rw [hvalue]
    exact E.popPayout_le_int64 tip hcoeff
  have hlow : ArithUint256.getLow64 payout = E.popPayout tip reward.2 := by
    have hle := E.popPayout_le tip reward.2
    rw [ArithUint256.getLow64, hvalue, Nat.mod_eq_of_lt (by omega)]
  simp only [payReward, hpayout, ok_bind, decide_eq_true hfits, require_true, hlow, withReward]
  rw [hvalue]
  split <;> rfl

theorem addReward_eq_ok (hcoeff : 7 * reward.2 / 2 < 2 ^ 63) :
    E.addReward tip result reward = .ok (E.withReward tip result reward) := by
  simp only [addReward, decide_eq_true (E.popPayout_le_int64 tip hcoeff), require_true, ok_bind,
    withReward]
  split <;> rfl

/-- The rewards that the development pays are those that the code computes. -/
theorem popRewards_eq_getPopRewards (hpos : 0 < E.consensus.nSubsidyHalvingInterval)
    {tip : CBlockIndex} (hcoeff : ∀ payouts, E.pop.getPopPayout tip.getBlockHash = some payouts →
      ∀ reward ∈ payouts, 7 * reward.2 / 2 < 2 ^ 63) :
    E.popRewards tip = E.getPopRewards tip := by
  unfold popRewards getPopRewards
  cases hpayouts : E.pop.getPopPayout tip.getBlockHash with
  | none => rfl
  | some payouts =>
    have hsmall := hcoeff payouts hpayouts
    dsimp only
    rw [foldlM_eq_ok_foldl fun result reward hreward => E.payReward_eq_ok hpos tip result
        (hsmall reward hreward),
      foldlM_eq_ok_foldl fun result reward hreward => E.addReward_eq_ok tip result
        (hsmall reward hreward)]

theorem mem_foldl_withReward {payouts : List (Bytes × Nat)} :
    ∀ {result : PoPRewards}, (payouts.map Prod.fst).Nodup →
      (∀ script ∈ payouts.map Prod.fst, script ∉ result.entries.map Prod.fst) →
      ∀ e, e ∈ (payouts.foldl (E.withReward tip) result).entries ↔
        e ∈ result.entries ∨
          ∃ coeff, (e.1, coeff) ∈ payouts ∧ e.2 = E.popPayout tip coeff ∧ e.2 ≠ 0 := by
  induction payouts with
  | nil => simp
  | cons reward payouts ih =>
    intro result hkeys hfresh e
    rw [map_cons, nodup_cons] at hkeys
    have hnew : reward.1 ∉ result.entries.map Prod.fst := hfresh _ mem_cons_self
    have hlater : ∀ script ∈ payouts.map Prod.fst, script ∉ result.entries.map Prod.fst :=
      (forall_mem_cons.mp hfresh).2
    rw [foldl_cons]
    by_cases hpaid : 0 < E.popPayout tip reward.2
    · have hentries : ∀ x, x ∈ (E.withReward tip result reward).entries ↔
          x = (reward.1, (E.popPayout tip reward.2 : Int)) ∨ x ∈ result.entries := by
        intro x
        rw [withReward, if_pos hpaid, OrderedMap.mem_insert_of_notMem scriptLess hnew]
      have hstill : ∀ script ∈ payouts.map Prod.fst,
          script ∉ (E.withReward tip result reward).entries.map Prod.fst := by
        intro script hscript hmem
        obtain ⟨x, hx, rfl⟩ := mem_map.mp hmem
        rcases (hentries x).mp hx with rfl | hx
        · exact hkeys.1 hscript
        · exact hlater _ hscript (mem_map_of_mem hx)
      rw [ih hkeys.2 hstill, hentries]
      constructor
      · rintro ((rfl | hmem) | ⟨coeff, hcoeff, hvalue⟩)
        · exact .inr ⟨reward.2, mem_cons_self, rfl, by simpa using hpaid.ne'⟩
        · exact .inl hmem
        · exact .inr ⟨coeff, mem_cons_of_mem _ hcoeff, hvalue⟩
      · rintro (hmem | ⟨coeff, hcoeff, hvalue, hne⟩)
        · exact .inl (.inr hmem)
        · rcases mem_cons.mp hcoeff with rfl | hcoeff
          · exact .inl (.inl (Prod.ext rfl hvalue))
          · exact .inr ⟨coeff, hcoeff, hvalue, hne⟩
    · have hsame : E.withReward tip result reward = result := by rw [withReward, if_neg hpaid]
      rw [hsame, ih hkeys.2 hlater]
      constructor
      · rintro (hmem | ⟨coeff, hcoeff, hvalue⟩)
        · exact .inl hmem
        · exact .inr ⟨coeff, mem_cons_of_mem _ hcoeff, hvalue⟩
      · rintro (hmem | ⟨coeff, hcoeff, hvalue, hne⟩)
        · exact .inl hmem
        · rcases mem_cons.mp hcoeff with rfl | hcoeff
          · exact absurd (hvalue.trans (by simpa using hpaid)) hne
          · exact .inr ⟨coeff, hcoeff, hvalue, hne⟩

/-- **Payouts are exact**: the coefficient times the multiplier, halved and divided by `COIN`, both
    rounded down; scripts that would get nothing are left out. -/
theorem popRewards_exact (hpos : 0 < E.consensus.nSubsidyHalvingInterval) {tip : CBlockIndex}
    {payouts : List (Bytes × Nat)} (hactive : E.paramsPopActive tip.nHeight = true)
    (hsettled : E.pop.endorsementSettlementInterval ≤ tip.nHeight)
    (hdelay : E.pop.popPayoutDelay ≤ tip.nHeight)
    (hstate : E.pop.setState tip.getBlockHash = true)
    (hpayouts : E.pop.getPopPayout tip.getBlockHash = some payouts)
    (hkeys : (payouts.map Prod.fst).Nodup)
    (hcoeff : ∀ reward ∈ payouts, 7 * reward.2 / 2 < 2 ^ 63) :
    ∃ rewards, E.popRewards tip = .ok rewards ∧ ∀ script value,
      (script, value) ∈ rewards.entries ↔ ∃ coeff, (script, coeff) ∈ payouts ∧
        value = ((coeff * (E.getSubsidyMultiplier (tip.nHeight + 1)).toNat / 2 / 100000000 : Nat) :
          Int) ∧ value ≠ 0 := by
  have hgates : (!E.paramsPopActive tip.nHeight ||
      decide (tip.nHeight < E.pop.endorsementSettlementInterval) ||
      decide (tip.nHeight < E.pop.popPayoutDelay)) = false := by
    simp [hactive, hsettled, hdelay]
  refine ⟨payouts.foldl (E.withReward tip) OrderedMap.empty, ?_, ?_⟩
  · simp only [popRewards, hgates, Bool.false_eq_true, if_false, hstate, require_true, ok_bind,
      hpayouts]
    exact foldlM_eq_ok_foldl fun result reward hreward =>
      E.payReward_eq_ok hpos tip result (hcoeff reward hreward)
  · intro script value
    rw [E.mem_foldl_withReward tip hkeys fun _ _ => not_mem_nil]
    simp only [OrderedMap.empty, not_mem_nil, false_or]
    rfl

end NodeEnv

namespace Regtest

theorem oneReward_exact :
    ∃ rewards, (payingEnv [OP_1]).popRewards popTip = .ok rewards ∧ ∀ script value,
      (script, value) ∈ rewards.entries ↔ ∃ coeff, (script, coeff) ∈ [([OP_1], 100000000)] ∧
        value = ((coeff * ((payingEnv [OP_1]).getSubsidyMultiplier (popTip.nHeight + 1)).toNat / 2 /
          100000000 : Nat) : Int) ∧ value ≠ 0 :=
  (payingEnv [OP_1]).popRewards_exact (by decide) (by rw [popTip_nHeight]; decide)
    (by rw [popTip_nHeight]; decide) (by rw [popTip_nHeight]; decide) rfl rfl
    (nodup_singleton _) (by decide)

end Regtest

end VBitcoin
